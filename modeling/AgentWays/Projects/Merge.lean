import AgentWays.Lib.KeyMap
import AgentWays.Lib.Upsert
import AgentWays.Lib.Utf8
import AgentWays.Projects.Rewrite
import Mathlib.Data.String.Basic

/-
  A relocation into a project that has a directory: what is
  in the moved one goes to the other file by file, the two
  indexes become one, and what is left behind is swept.

  Every file operation may fail. What is printed on the way
  is left out.

  Key definitions include:
    * `Projects.Dirs`
    * `Projects.World`
    * `Projects.mergeInto`
    * `Projects.verifyMove`
-/

------------------------------------------------------------
-- Directories
------------------------------------------------------------

namespace Projects

/- A file with its time, or a directory and what it holds. -/
inductive Node
| file (bytes : Bytes) (mtime : Nat)
| dir (paths : List (String × Option Bytes))
deriving DecidableEq

abbrev Dir := KeyMap String Node

/- The moved project's directory, and the one merged into. -/
structure Dirs where
  old : Option Dir
  new : Option Dir
deriving DecidableEq

def Dirs.inOld
    (s : Dirs)
    (name : String) : Option Node :=
  s.old.bind (fun d => d.get? name)

def Dirs.inNew
    (s : Dirs)
    (name : String) : Option Node :=
  s.new.bind (fun d => d.get? name)

/- The merge, and the sweep after it. -/
inductive Phase
| merge
| sweep
deriving DecidableEq

/- A file operation, by the name it is done on. -/
inductive Op
| create
| list (phase : Phase)
| entry (phase : Phase) (name : String)
| existsIndex
| exists (name : String)
| look (phase : Phase) (name : String)
| remove (phase : Phase) (name : String)
| rename (name : String)
| readOld
| readNew
| readRaw
| write
| removeTmp
| removeIndex
| listAgain
| arrived (name : String)
| existsOld
| removeDir (phase : Phase)
deriving DecidableEq

/-
  Which operations fail, what a write that fails leaves, and
  the time.
-/
structure World where
  fails : Op → Bool
  left : Bytes
  now : Nat

def sessionsIndex : String := "sessions-index.json"

def tmpSibling
    (name : String) : String :=
  name ++ ".relocate-tmp"

/- The names a directory is read to have, sorted. -/
def World.listed
    (w : World)
    (phase : Phase)
    (d : Dir) : List String :=
  d.keys.filter (fun name => !w.fails (.entry phase name))

end Projects

------------------------------------------------------------
-- Remnants
------------------------------------------------------------

namespace Projects

/- `STATE_ONLY_TYPES`. -/
def stateOnlyTypes : List String :=
  ["last-prompt", "ai-title", "mode", "permission-mode",
    "bridge-session", "agent-name"]

/- A record of a session's state, which is written again. -/
def isStateRecord
    (j : JsonText)
    (line : String) : Bool :=
  match
      (j.parse (bytesOf line)).bind
        (fun v => (get? v "type").bind asStr) with
  | none => false
  | some type => stateOnlyTypes.contains type

/- Whether every record of a file is a session-state one. -/
def stateOnly
    (j : JsonText)
    (bytes : Bytes) : Bool :=
  let text := String.ofList (Utf8.lossy bytes)
  ((RustText.lines text).filter
      (fun line => !(RustText.trim line).isEmpty)).all
    (isStateRecord j)

/- A file's size and time, if it is a superseded leftover. -/
def supersededRemnant
    (j : JsonText)
    (src dst : Node) : Option (Nat × Nat) :=
  match src, dst with
  | .file bytes mtime, .file counterpart _ =>
      if counterpart.length ≤ bytes.length then none
      else if stateOnly j bytes then
        some (bytes.length, mtime)
      else none
  | _, _ => none

end Projects

------------------------------------------------------------
-- Indexes
------------------------------------------------------------

namespace Projects

open Json (Tree)

/- JSON read and printed, on one line or over several. -/
structure JsonFile extends JsonText where
  pretty : Tree → Bytes

/- An index that is read as an object, or else an empty one. -/
def loadIndex
    (j : JsonText)
    (node : Option Node)
    (reads : Bool) : Tree :=
  match node with
  | some (.file bytes _) =>
      if reads then
        ((j.parse bytes).filter isObject).getD (.obj [])
      else .obj []
  | _ => .obj []

def entriesOf
    (data : Tree) : List Tree :=
  match get? data "entries" with
  | some (.arr items) => items.filter isObject
  | _ => []

def sessionId
    (entry : Tree) : Option String :=
  ((get? entry "sessionId").bind asStr).filter (· ≠ "")

/- Two indexes as one, an entry of the source's winning. -/
def mergeSessionsIndex
    (src dst : Tree) : Tree :=
  setField dst "entries"
    (.arr
      (Upsert.all sessionId (entriesOf dst ++ entriesOf src)))

/- Whether an index is read to be printed over several lines. -/
def isPretty
    (node : Option Node)
    (reads : Bool) : Bool :=
  match node with
  | some (.file raw _) =>
      reads && bytesOf (String.ofList (Utf8.lossy raw)) = raw &&
        contains raw (bytesOf "\n  ")
  | _ => false

variable (j : JsonFile) (w : World)

/- The bytes that the merged index is written as. -/
def mergedText
    (old new : Option Node) : Bytes :=
  let src := loadIndex j.toJsonText old (!w.fails .readOld)
  let dst := loadIndex j.toJsonText new (!w.fails .readNew)
  let data := mergeSessionsIndex src dst
  if isPretty new (!w.fails .readRaw) then j.pretty data
  else j.print data

/- `write_json_atomic` of the index, and whether it worked. -/
def writeIndex
    (new : Dir)
    (text : Bytes) : Dir × Bool :=
  let tmp := tmpSibling sessionsIndex
  match new.get? tmp with
  | some (.dir _) => (new, false)
  | _ =>
      if w.fails .write then
        (if w.fails .removeTmp then
          new.insert tmp (.file w.left w.now)
        else new.erase tmp, false)
      else
        match new.get? sessionsIndex with
        | some (.dir _) => (new.erase tmp, false)
        | some (.file _ mtime) =>
            ((new.erase tmp).insert sessionsIndex
              (.file text mtime), true)
        | none =>
            ((new.erase tmp).insert sessionsIndex
              (.file text w.now), true)

end Projects

------------------------------------------------------------
-- Merging
------------------------------------------------------------

namespace Projects

/-
  The two directories, the names moved so far, and whether
  there are two indexes or a step has failed.
-/
structure Merging where
  old : Dir
  new : Dir
  done : List String
  pending : Bool
  failed : Bool

def Merging.dirs
    (m : Merging) : Dirs where
  old := some m.old
  new := some m.new

/- What a rename may put a file or a directory in place of. -/
def replaceable : Node → Option Node → Bool
| _, none => true
| .file _ _, some (.file _ _) => true
| .dir _, some (.dir []) => true
| _, _ => false

variable (j : JsonFile) (w : World)

/- One item of the moved directory. -/
def mergeItem
    (m : Merging)
    (name : String) : Merging :=
  match m.old.get? name with
  | none => m
  | some item =>
      let target := m.new.get? name
      if m.failed then m
      else if name = sessionsIndex ∧ target.isSome ∧
          !w.fails .existsIndex then
        { m with pending := true }
      else if target.isSome ∧ !w.fails (.exists name) then
        match
            target.bind (supersededRemnant j.toJsonText item) with
        | none => m
        | some _ =>
            if w.fails (.look .merge name) ||
                w.fails (.remove .merge name) then m
            else { m with old := m.old.erase name }
      else if w.fails (.rename name) ||
          !replaceable item target then
        { m with failed := true }
      else
        { m with
          old := m.old.erase name
          new := m.new.insert name item
          done := m.done ++ [name] }

/- The two indexes, the moved project's removed after it. -/
def mergeIndex
    (m : Merging) : Merging :=
  let text :=
    mergedText j w (m.old.get? sessionsIndex)
      (m.new.get? sessionsIndex)
  let written := writeIndex w m.new text
  let m := { m with new := written.1 }
  if !written.2 then { m with failed := true }
  else
    match m.old.get? sessionsIndex with
    | some (.file _ _) =>
        if w.fails .removeIndex then { m with failed := true }
        else { m with old := m.old.erase sessionsIndex }
    | _ => { m with failed := true }

/- The items one by one, and then the indexes. -/
def mergeItems
    (m : Merging) : Merging :=
  let m := (w.listed .merge m.old).foldl (mergeItem j w) m
  if !m.failed && m.pending then mergeIndex j w m else m

/-
  The moved directory's contents moved into the other. Where
  a step fails, the names moved so far are told.
-/
def mergeInto
    (s : Dirs) : Dirs × Option (List String) :=
  if w.fails .create then (s, some [])
  else
    let new := s.new.getD .empty
    match s.old with
    | none => ({ s with new := some new }, some [])
    | some old =>
        if w.fails (.list .merge) then
          ({ s with new := some new }, some [])
        else
          let m :=
            mergeItems j w
              { old := old
                new := new
                done := []
                pending := false
                failed := false }
          if m.failed || w.fails .listAgain then
            (m.dirs, some m.done)
          else if !m.old.isEmpty then (m.dirs, none)
          else if w.fails (.removeDir .merge) then
            (m.dirs, some m.done)
          else ({ old := none, new := some m.new }, none)

end Projects

------------------------------------------------------------
-- Sweeping
------------------------------------------------------------

namespace Projects

variable (j : JsonFile) (w : World)

/- What is left of the moved directory, and its transcripts. -/
structure Sweep where
  old : Dir
  stranded : List String

def Sweep.leave
    (v : Sweep)
    (name : String) : Sweep :=
  if RustText.endsWith name ".jsonl" then
    { v with stranded := v.stranded ++ [name] }
  else v

def sweepItem
    (moved : List String)
    (new : Option Dir)
    (v : Sweep)
    (name : String) : Sweep :=
  match v.old.get? name with
  | none => v
  | some (.dir paths) =>
      if paths.isEmpty && !w.fails (.remove .sweep name) then
        { v with old := v.old.erase name }
      else v
  | some item =>
      let target := new.bind (fun d => d.get? name)
      if moved.contains name &&
          (target.bind
            (supersededRemnant j.toJsonText item)).isSome &&
          !w.fails (.look .sweep name) &&
          !w.fails (.remove .sweep name) then
        { v with old := v.old.erase name }
      else v.leave name

/- The first three of some names, for a message. -/
def someNames
    (names : List String) : String :=
  ", ".intercalate
    ((names.mergeSort (fun a b => decide (a ≤ b))).take 3)

/- The directories, the failures, and whether it ended. -/
structure Verified where
  dirs : Dirs
  failures : List String
  ended : Bool

/- The failures for names that were moved and are not there. -/
def missingFailures
    (moved : List String)
    (s : Dirs) : List String :=
  let missing :=
    moved.filter
      (fun name =>
        (s.inNew name).isNone || w.fails (.arrived name))
  if missing.isEmpty then []
  else
    [toString missing.length ++
      " transcript(s) did not arrive: " ++ someNames missing]

def strandedFailures
    (oldName : String)
    (stranded : List String) : List String :=
  if stranded.isEmpty then []
  else
    [toString stranded.length ++
      " transcript(s) stranded in " ++ oldName ++ ": " ++
      someNames stranded]

/- Whether the moved transcripts are there, and no others. -/
def verifyMove
    (oldName : String)
    (moved : List String)
    (s : Dirs) : Verified :=
  let missing := missingFailures w moved s
  match s.old with
  | none => { dirs := s, failures := missing, ended := true }
  | some old =>
      if w.fails .existsOld then
        { dirs := s, failures := missing, ended := true }
      else if w.fails (.list .sweep) then
        { dirs := s, failures := missing, ended := false }
      else
        let v :=
          (w.listed .sweep old).foldl
            (sweepItem j w moved s.new)
            { old := old, stranded := [] }
        { dirs :=
            { s with
              old :=
                if v.old.isEmpty &&
                    !w.fails (.removeDir .sweep) then none
                else some v.old }
          failures :=
            missing ++ strandedFailures oldName v.stranded
          ended := true }

/- The merge, and the sweep where no step of it has failed. -/
def mergeProjects
    (oldName : String)
    (moved : List String)
    (s : Dirs) : Dirs :=
  match mergeInto j w s with
  | (s, some _) => s
  | (s, none) => (verifyMove j w oldName moved s).dirs

end Projects
