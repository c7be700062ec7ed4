import AgentWays.Lib.Interleave
import AgentWays.Projects.Rewrite

/-
  A guarded rewrite of a file that sessions append to.

  The rewrite looks at the file's length and time, reads it,
  writes a temporary file, looks again, and renames the
  temporary file into place. A session opens the file and
  appends one line to what it has opened.

  Key definitions include:
    * `Projects.File`
    * `Projects.Pass`
    * `Projects.File.step`
    * `Projects.sessions`
-/

------------------------------------------------------------
-- Files
------------------------------------------------------------

namespace Projects

structure Inode where
  content : Bytes
  mtime : Nat
deriving DecidableEq

/- `fsio::stamp`: a file's length and modification time. -/
def stamp
    (file : Inode) : Nat × Nat :=
  (file.content.length, file.mtime)

inductive RewriteError
| concurrent
| io
deriving DecidableEq

/- How far the rewrite has come. -/
inductive Pass
| waiting
| stamped (before : Nat × Nat)
| read (before : Nat × Nat) (bytes : Bytes)
| written (before : Nat × Nat) (bytes : Bytes)
| checked (before : Nat × Nat) (bytes : Bytes)
| finished (result : Except RewriteError Rewrite)
deriving DecidableEq

/- The files there have been, the one named, and the rewrite. -/
structure File where
  inodes : List Inode
  named : Nat
  pass : Pass
deriving DecidableEq

def File.inode
    (s : File)
    (handle : Nat) : Inode :=
  s.inodes.getD handle { content := [], mtime := 0 }

/- What the file holds under its name. -/
def File.content
    (s : File) : Bytes :=
  (s.inode s.named).content

def File.append
    (s : File)
    (handle : Nat)
    (line : Bytes)
    (now : Nat) : File :=
  { s with
    inodes :=
      s.inodes.modify handle
        (fun file =>
          { content := file.content ++ line
            mtime := now }) }

/- The name goes to a new file, with the old one's time. -/
def File.swap
    (s : File)
    (content : Bytes) : File :=
  { s with
    inodes :=
      s.inodes ++
        [{ content := content
           mtime := (s.inode s.named).mtime }]
    named := s.inodes.length }

def File.to
    (s : File)
    (pass : Pass) : File :=
  { s with pass := pass }

end Projects

------------------------------------------------------------
-- Steps
------------------------------------------------------------

namespace Projects

/- A step of the rewrite works, or fails. -/
inductive Event
| go
| fail
deriving DecidableEq

variable (j : JsonText) (f : Field)

/- A step of `rewrite_jsonl`, with `apply` and guarded. -/
def File.step
    (s : File) : Event → File
| .fail =>
    match s.pass with
    | .waiting => s
    | .finished _ => s
    | _ => s.to (.finished (.error .io))
| .go =>
    match s.pass with
    | .waiting => s.to (.stamped (stamp (s.inode s.named)))
    | .stamped before => s.to (.read before s.content)
    | .read before bytes =>
        if (rewriteTally j f bytes).changed = 0 then
          s.to (.finished (.ok (rewriteTally j f bytes)))
        else s.to (.written before bytes)
    | .written before bytes =>
        if stamp (s.inode s.named) = before then
          s.to (.checked before bytes)
        else s.to (.finished (.error .concurrent))
    | .checked _ bytes =>
        (s.swap (rewriteBytes j f bytes)).to
          (.finished (.ok (rewriteTally j f bytes)))
    | .finished _ => s

/- How far a session has come with its line. -/
inductive Appender
| opening (line : Bytes)
| writing (handle : Nat) (line : Bytes)
| written (line : Bytes)
deriving DecidableEq

/- The line a session has written. -/
def Appender.wrote : Appender → Option Bytes
| .written line => some line
| _ => none

/- A session opens the file, and appends at some time. -/
def act
    (s : File)
    (call : Appender)
    (now : Nat) : Option (File × Appender) :=
  match call with
  | .opening line => some (s, .writing s.named line)
  | .writing handle line =>
      some (s.append handle line now, .written line)
  | .written _ => none

abbrev Calls := Interleave.Crew File Appender
abbrev Move := Interleave.Move Bytes Nat Event

/- Every interleaving of the sessions and the rewrite. -/
def sessions : StepMachine Calls Move Unit :=
  Interleave.machine .opening act (File.step j f)

/- A file at rest, and no session at work. -/
def initial
    (file : Inode) : Calls where
  shared :=
    { inodes := [file]
      named := 0
      pass := .waiting }
  calls := []

/- Whether the rewrite has put its file in place. -/
def Pass.swapped : Pass → Bool
| .finished (.ok r) => r.changed ≠ 0
| _ => false

end Projects
