import AgentWays.Lib.KeyMap
import AgentWays.Lib.RustText
import AgentWays.Lib.Interleave
import Mathlib.Data.String.Basic

/-
  The mark store: deleting messages, taking a delete back
  and pruning, each call split at its file operations.

  A call holds what it has read and what is left of its
  loops. It takes its next step on `go`; `fail` is the step's
  error, and `entry` the next name a directory read gives.
  The clock counts milliseconds.

  Key definitions include:
    * `Tombstones.Store`
    * `Tombstones.Call`
    * `Tombstones.act`
    * `Tombstones.store`
-/

------------------------------------------------------------
-- Names
------------------------------------------------------------

namespace Tombstones

/- Whether a key can name a mark file: a plain filename. -/
def validKey
    (key : String) : Bool :=
  !key.toList.isEmpty &&
    !key.toList.head?.any (fun c => c = '.' ∨ c = '#') &&
    !key.toList.any
      (fun c => c = '/' ∨ c = '\\' ∨ c = '\u0000' ∨ c = ' ')

/- Whether an id has the form of a batch's. -/
def validBatchId
    (id : String) : Bool :=
  !id.toList.isEmpty &&
    id.toList.all (fun c => c.isDigit ∨ c = '-')

/- An integer in at least fifteen digits. -/
def pad15
    (n : Nat) : String :=
  String.ofList
    (List.replicate (15 - (toString n).length) '0' ++
      (toString n).toList)

/- The id of the batch a process writes at a millisecond. -/
def batchId
    (millis pid : Nat) : String :=
  String.ofList
    ((pad15 millis).toList ++ '-' :: (toString pid).toList)

end Tombstones

------------------------------------------------------------
-- The Store
------------------------------------------------------------

namespace Tombstones

/- How long a record counts as being written: 90 seconds. -/
def grace : Nat := 90 * 1000

/- How long a stub is kept: 30 days. -/
def stubKept : Nat := 30 * 86400 * 1000

/- The content of a batch's record. -/
inductive Record
| keys (list : List String)
| stub (secs : Nat) (list : List String)
deriving DecidableEq

structure RecordFile where
  content : Record
  modified : Nat
deriving DecidableEq

/-
  The marks with the batch each holds, and the batches'
  records. `minted` are the milliseconds and processes that
  ids were made of.
-/
structure Store where
  now : Nat
  minted : List (Nat × Nat)
  marks : KeyMap String String
  records : KeyMap String RecordFile

def Store.empty : Store where
  now := 0
  minted := []
  marks := .empty
  records := .empty

/- Whether the mark of a key belongs to a batch. -/
def Store.owns
    (s : Store)
    (batch key : String) : Bool :=
  s.marks.get? key = some batch

/- The batches on record, oldest first. -/
def Store.batches
    (s : Store) : List String :=
  s.records.keys.filter validBatchId

def Store.write
    (s : Store)
    (batch : String)
    (content : Record) : Store :=
  { s with
    records :=
      s.records.insert batch
        { content := content, modified := s.now } }

def Store.drop
    (s : Store)
    (batch : String) : Store :=
  { s with records := s.records.erase batch }

def Store.link
    (s : Store)
    (key batch : String) : Store :=
  { s with marks := s.marks.insert key batch }

def Store.unlink
    (s : Store)
    (key : String) : Store :=
  { s with marks := s.marks.erase key }

def Store.mint
    (s : Store)
    (pid : Nat) : Store :=
  { s with minted := (s.now, pid) :: s.minted }

def Store.tick
    (s : Store)
    (d : Nat) : Store :=
  { s with now := s.now + d }

end Tombstones

------------------------------------------------------------
-- Calls
------------------------------------------------------------

namespace Tombstones

/- What a step of a call may come to beside its success. -/
inductive Choice
| go
| fail
| entry (key : String)
deriving DecidableEq

/-
  The places of a call, from its start to its result.

  A delete checks its keys, writes the record and links the
  marks; `since` is when its record was written. An undo
  reads a record and removes the marks it lists. A prune
  removes the marks of messages gone, then goes over the
  batches.
-/
inductive Call
-- mark_messages
| checking (pid : Nat) (todo fresh : List String)
| recording (batch : String) (fresh : List String)
| linking (batch : String) (since : Nat)
    (todo marked : List String)
| unlinking (batch : String) (since : Nat) (todo : List String)
| marked (batch : String) (marked : List String)
| nothingNew
| failed (batch : String)
-- undo
| undoing (batch : Option String)
| reading (batch : String)
| unmarking (batch : String) (list todo unmarked : List String)
    (alreadyRemoved : Nat)
| undone (batch : String) (unmarked : List String)
    (alreadyRemoved : Nat)
| reaped (batch : String) (secs : Nat)
| noBatch
| undoFailed (batch : String)
-- prune
| sweeping (present : List String) (removed : Nat)
| naming (now removed : Nat)
| aging (now : Nat) (batches : List String) (removed : Nat)
| judging (now : Nat) (batch : String) (modified : Option Nat)
    (batches : List String) (removed : Nat)
| owning (now : Nat) (batch : String) (list todo : List String)
    (batches : List String) (removed : Nat)
| stubbing (now : Nat) (batch : String) (list : List String)
    (batches : List String) (removed : Nat)
| expiring (now : Nat) (batch : String)
    (batches : List String) (removed : Nat)
| pruned (removed : Nat)
deriving DecidableEq

/- The keys sorted, each once. -/
def sortedKeys
    (keys : List String) : List String :=
  (keys.insertionSort (· ≤ ·)).dedup

/- One step of a delete. -/
def markMessages
    (s : Store)
    (call : Call)
    (choice : Choice) : Option (Store × Call) :=
  match call, choice with
  | .checking pid (key :: todo) fresh, .go =>
      if validKey key ∧ (s.marks.get? key).isNone then
        some (s, .checking pid todo (fresh ++ [key]))
      else some (s, .checking pid todo fresh)
  | .checking pid [] fresh, .go =>
      if fresh.isEmpty then some (s, .nothingNew)
      else
        some
          (s.mint pid,
            .recording (batchId s.now pid) (sortedKeys fresh))
  | .recording batch fresh, .go =>
      some
        (s.write batch (.keys fresh),
          .linking batch s.now fresh [])
  | .recording batch _, .fail => some (s, .failed batch)
  | .linking batch since (key :: todo) marked, .go =>
      if (s.marks.get? key).isNone then
        some
          (s.link key batch,
            .linking batch since todo (marked ++ [key]))
      else some (s, .linking batch since todo marked)
  | .linking batch since (_ :: _) marked, .fail =>
      some (s, .unlinking batch since marked)
  | .linking batch _ [] marked, .go =>
      some (s, .marked batch marked)
  | .unlinking batch since (key :: todo), .go =>
      some (s.unlink key, .unlinking batch since todo)
  | .unlinking batch _ [], .go =>
      some (s.drop batch, .failed batch)
  | _, _ => none

/- One step of an undo. -/
def undo
    (s : Store)
    (call : Call)
    (choice : Choice) : Option (Store × Call) :=
  match call, choice with
  | .undoing (some batch), .go =>
      if validBatchId batch then some (s, .reading batch)
      else some (s, .noBatch)
  | .undoing none, .go =>
      match s.batches.getLast? with
      | some batch => some (s, .reading batch)
      | none => some (s, .noBatch)
  | .reading batch, .go =>
      match s.records.get? batch with
      | none => some (s, .noBatch)
      | some file =>
          match file.content with
          | .stub secs _ => some (s, .reaped batch secs)
          | .keys list =>
              some
                (s,
                  .unmarking batch list (list.filter validKey)
                    [] 0)
  | .unmarking batch list (key :: todo) unmarked removed, .go =>
      if s.owns batch key then
        some
          (s.unlink key,
            .unmarking batch list todo (unmarked ++ [key])
              removed)
      else if (s.marks.get? key).isNone then
        some
          (s, .unmarking batch list todo unmarked (removed + 1))
      else some (s, .unmarking batch list todo unmarked removed)
  | .unmarking batch _ [] unmarked removed, .go =>
      if (s.records.get? batch).isSome then
        some (s.drop batch, .undone batch unmarked removed)
      else some (s, .undoFailed batch)
  | _, _ => none

/- Whether a record is younger than the grace. -/
def young
    (now : Nat)
    (modified : Option Nat) : Bool :=
  modified.any (fun at' => now - at' < grace)

/- One step of a prune. -/
def prune
    (s : Store)
    (call : Call)
    (choice : Choice) : Option (Store × Call) :=
  match call, choice with
  | .sweeping present removed, .entry key =>
      if key ∉ present ∧ (s.marks.get? key).isSome then
        some (s.unlink key, .sweeping present (removed + 1))
      else some (s, .sweeping present removed)
  | .sweeping _ removed, .go => some (s, .naming s.now removed)
  | .naming now removed, .go =>
      some (s, .aging now s.batches removed)
  | .aging _ [] removed, .go => some (s, .pruned removed)
  | .aging now (batch :: batches) removed, .go =>
      some
        (s,
          .judging now batch
            ((s.records.get? batch).map RecordFile.modified)
            batches removed)
  | .judging now batch modified batches removed, .go =>
      match s.records.get? batch with
      | none => some (s, .aging now batches removed)
      | some file =>
          if young now modified then
            some (s, .aging now batches removed)
          else
            match file.content with
            | .stub secs _ =>
                if stubKept ≤ now - secs * 1000 then
                  some (s, .expiring now batch batches removed)
                else some (s, .aging now batches removed)
            | .keys list =>
                some
                  (s,
                    .owning now batch list
                      (list.filter validKey) batches removed)
  | .owning now batch list (key :: todo) batches removed, .go =>
      if s.owns batch key then
        some (s, .aging now batches removed)
      else some (s, .owning now batch list todo batches removed)
  | .owning now batch list [] batches removed, .go =>
      some (s, .stubbing now batch list batches removed)
  | .stubbing now batch list batches removed, .go =>
      some
        (s.write batch (.stub (now / 1000) list),
          .aging now batches removed)
  | .stubbing now _ _ batches removed, .fail =>
      some (s, .aging now batches removed)
  | .expiring now batch batches removed, .go =>
      some (s.drop batch, .aging now batches removed)
  | _, _ => none

/- One step of any call. -/
def act
    (s : Store)
    (call : Call)
    (choice : Choice) : Option (Store × Call) :=
  (markMessages s call choice).or
    ((undo s call choice).or (prune s call choice))

/- The calls that a caller makes. -/
inductive Request
| mark (pid : Nat) (keys : List String)
| undo (batch : Option String)
| prune (present : List String)

def Request.call : Request → Call
| .mark pid keys => .checking pid keys []
| .undo batch => .undoing batch
| .prune present => .sweeping present 0

abbrev Calls := Interleave.Crew Store Call

abbrev Move := Interleave.Move Request Choice Nat

/- The store under any interleaving of calls. -/
def store : StepMachine Calls Move Unit :=
  Interleave.machine Request.call act Store.tick

def initial : Calls where
  shared := .empty
  calls := []

end Tombstones
