import AgentWays.Lib.Interleave
import AgentWays.Lib.RustText

/-
  The settings writer: a lock file beside the target, and an
  edit read, made and written while the lock is held.

  The lock is one on the inode that the lock file's name had
  when it was opened. A holder unlinks the file before it
  lets go, so whoever locks an inode looks again at what the
  name has become.

  Key definitions include:
    * `Writer.Edit.revise`
    * `Writer.Disk`
    * `Writer.Call`
    * `Writer.act`
    * `Writer.writers`
-/

------------------------------------------------------------
-- Edits
------------------------------------------------------------

namespace Writer

/- What is used of documents: read, compared and printed. -/
structure DocOps (Doc Value Error : Type) where
  parse : String → Except Error Doc
  value : Doc → Value
  text : Doc → String
  verify : Doc → Except Error Unit

/- An edit, and the text that a new or empty file starts with. -/
structure Edit (Doc Error T : Type) where
  header : Option String
  f : Doc → Except Error (Doc × T)

variable {Doc Value Error T : Type} [DecidableEq Value]

/-
  What an edit makes of a file's text: an error, nothing to
  write, or the new text.
-/
def Edit.revise
    (ops : DocOps Doc Value Error)
    (edit : Edit Doc Error T)
    (text : String) : Except Error (T × Option String) := do
  let start :=
    if RustText.trim text = "" then edit.header.getD text
    else text
  let before ← ops.parse start
  let (doc, out) ← edit.f before
  if ops.value doc = ops.value before then
    return (out, none)
  else
    ops.verify doc
    return (out, some (ops.text doc))

end Writer

------------------------------------------------------------
-- Calls
------------------------------------------------------------

namespace Writer

/- The ways to take the lock. -/
inductive Take
| acquire
| acquireKept
| tryAcquire
| acquireWithin
deriving DecidableEq

/- Whether the lock is waited for in the kernel. -/
def Take.waits : Take → Bool
| .acquire => true
| .acquireKept => true
| .tryAcquire => false
| .acquireWithin => false

/- Whether the lock file stays behind. -/
def Take.keeps : Take → Bool
| .acquireKept => true
| _ => false

inductive WriteError (Error : Type)
| lock
| read
| edit (e : Error)
| write
deriving DecidableEq

/- What came of a call. -/
inductive Outcome (Error T : Type)
| guarded
| notLocked
| failed (e : WriteError Error)
| wrote (out : T)
| unchanged (out : T)
deriving DecidableEq

/- Whether a call's edit was made. -/
def Outcome.edited {Error T : Type} : Outcome Error T → Bool
| .wrote _ => true
| .unchanged _ => true
| _ => false

/- How far a call has come. -/
inductive Place (Error T : Type)
| opening
| opened (inode : Nat)
| locked (inode : Nat)
| stale (inode : Nat)
| held (inode : Nat)
| read (inode : Nat) (text : String)
| staged (inode : Nat) (out : T) (text : String)
| leaving (inode : Nat) (outcome : Outcome Error T)
| unlinked (inode : Nat) (outcome : Outcome Error T)
| returned (outcome : Outcome Error T)
| died (outcome : Option (Outcome Error T))
deriving DecidableEq

/- A call that takes the lock, to hold it or for an edit. -/
structure Call (Doc Error T : Type) where
  take : Take
  edit : Option (Edit Doc Error T)
  place : Place Error T

/-
  The inode that the lock file's name has, how many inodes
  there have been, those that are locked, and the target.
-/
structure Disk where
  name : Option Nat
  inodes : Nat
  locked : List Nat
  file : Option String
deriving DecidableEq

/- The text that an edit starts from. -/
def Disk.text
    (disk : Disk) : String :=
  disk.file.getD ""

/- A lock goes with the file it is on. -/
def Disk.close
    (disk : Disk)
    (inode : Nat) : Disk :=
  { disk with locked := disk.locked.erase inode }

/- A step that works, fails, gives up waiting, or is the last. -/
inductive Choice
| go
| fail
| giveUp
| die
deriving DecidableEq

/- The inode that a place has locked. -/
def Place.osLock {Error T : Type} : Place Error T → Option Nat
| .locked inode => some inode
| .stale inode => some inode
| .held inode => some inode
| .read inode _ => some inode
| .staged inode _ _ => some inode
| .leaving inode _ => some inode
| .unlinked inode _ => some inode
| _ => none

/- The inode by which a place holds the lock on the target. -/
def Place.holds {Error T : Type} : Place Error T → Option Nat
| .held inode => some inode
| .read inode _ => some inode
| .staged inode _ _ => some inode
| .leaving inode _ => some inode
| _ => none

/- What has come of a call so far. -/
def Place.outcome {Error T : Type} :
    Place Error T → Option (Outcome Error T)
| .leaving _ outcome => some outcome
| .unlinked _ outcome => some outcome
| .returned outcome => some outcome
| .died outcome => outcome
| _ => none

end Writer

------------------------------------------------------------
-- Steps
------------------------------------------------------------

namespace Writer

variable {Doc Value Error T : Type} [DecidableEq Value]

/- `Lock::take`, a step at a time. -/
def takeStep
    (disk : Disk)
    (take : Take)
    (e : Choice) :
    Place Error T → Option (Disk × Place Error T)
| .opening =>
    if e = .fail then some (disk, .returned (.failed .lock))
    else
      match disk.name with
      | some inode => some (disk, .opened inode)
      | none =>
          some
            ({ disk with
                name := some disk.inodes
                inodes := disk.inodes + 1 },
              .opened disk.inodes)
| .opened inode =>
    if e = .fail then
      some (disk, .returned (.failed .lock))
    else if inode ∈ disk.locked then
      if take.waits then none
      else if take = .acquireWithin ∧ e ≠ .giveUp then
        some (disk, .opening)
      else some (disk, .returned .notLocked)
    else
      some
        ({ disk with locked := inode :: disk.locked },
          .locked inode)
| .locked inode =>
    if e ≠ .fail ∧ disk.name = some inode then
      some (disk, .held inode)
    else some (disk, .stale inode)
| .stale inode => some (disk.close inode, .opening)
| _ => none

/- What is done while the lock is held. -/
def holdStep
    (ops : DocOps Doc Value Error)
    (disk : Disk)
    (edit : Option (Edit Doc Error T))
    (e : Choice) :
    Place Error T → Option (Disk × Place Error T)
| .held inode =>
    match edit with
    | none => some (disk, .leaving inode .guarded)
    | some _ =>
        if e = .fail then
          some (disk, .leaving inode (.failed .read))
        else some (disk, .read inode disk.text)
| .read inode text =>
    match edit with
    | none => none
    | some edit =>
        match edit.revise ops text with
        | .error e =>
            some (disk, .leaving inode (.failed (.edit e)))
        | .ok (out, none) =>
            some (disk, .leaving inode (.unchanged out))
        | .ok (out, some text) =>
            some (disk, .staged inode out text)
| .staged inode out text =>
    if e = .fail then
      some (disk, .leaving inode (.failed .write))
    else
      some
        ({ disk with file := some text },
          .leaving inode (.wrote out))
| _ => none

/- Letting go: unlink, then close, or close alone. -/
def leaveStep
    (disk : Disk)
    (take : Take)
    (e : Choice) :
    Place Error T → Option (Disk × Place Error T)
| .leaving inode outcome =>
    if take.keeps then
      some (disk.close inode, .returned outcome)
    else if e = .fail then
      some (disk, .unlinked inode outcome)
    else
      some
        ({ disk with name := none }, .unlinked inode outcome)
| .unlinked inode outcome =>
    some (disk.close inode, .returned outcome)
| _ => none

/- A process dies, and what it has locked is let go. -/
def Disk.lose
    (disk : Disk)
    (place : Place Error T) : Disk :=
  match place.osLock with
  | some inode => disk.close inode
  | none => disk

/- A step of a call, wherever it is. -/
def placeStep
    (ops : DocOps Doc Value Error)
    (disk : Disk)
    (call : Call Doc Error T)
    (e : Choice) : Option (Disk × Place Error T) :=
  match call.place with
  | .opening | .opened _ | .locked _ | .stale _ =>
      takeStep disk call.take e call.place
  | .held _ | .read _ _ | .staged _ _ _ =>
      holdStep ops disk call.edit e call.place
  | .leaving _ _ | .unlinked _ _ =>
      leaveStep disk call.take e call.place
  | .returned _ | .died _ => none

def act
    (ops : DocOps Doc Value Error)
    (disk : Disk)
    (call : Call Doc Error T)
    (e : Choice) : Option (Disk × Call Doc Error T) :=
  if e = .die then
    match call.place with
    | .returned _ | .died _ => none
    | place =>
        some
          (disk.lose place,
            { call with place := .died place.outcome })
  else
    (placeStep ops disk call e).map
      (fun next => (next.1, { call with place := next.2 }))

/- How the lock is taken, and what edit is made under it. -/
abbrev Request (Doc Error T : Type) :=
  Take × Option (Edit Doc Error T)

def Call.new
    (request : Request Doc Error T) : Call Doc Error T where
  take := request.1
  edit := request.2
  place := .opening

abbrev Calls (Doc Error T : Type) :=
  Interleave.Crew Disk (Call Doc Error T)

abbrev Move (Doc Error T : Type) :=
  Interleave.Move (Request Doc Error T) Choice Empty

/- Every interleaving of the lock's users. -/
def writers
    (ops : DocOps Doc Value Error) :
    StepMachine (Calls Doc Error T) (Move Doc Error T) Unit :=
  Interleave.machine Call.new (act ops)
    (fun _ event => nomatch event)

end Writer
