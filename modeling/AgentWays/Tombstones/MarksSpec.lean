import AgentWays.Tombstones.Marks
import AgentWays.Lib.TextSpec
import Mathlib.Data.List.Dedup

/-
  What one step of a call can do, case by case, and the
  lookups after each change of the store.

  Key definitions include:
    * `Tombstones.Step`

  Main declarations:
    * `Tombstones.step_of_act`
    * `Tombstones.batchId_inj`
-/

------------------------------------------------------------
-- Lookups
------------------------------------------------------------

namespace Tombstones

variable (s : Store) (key batch : String)

@[simp] theorem get?_marks_link
    (k : String) :
    (s.link key batch).marks.get? k =
      if k = key then some batch else s.marks.get? k :=
  KeyMap.get?_insert _ _ _ _

@[simp] theorem records_link :
    (s.link key batch).records = s.records := rfl

@[simp] theorem get?_marks_unlink
    (k : String) :
    (s.unlink key).marks.get? k =
      if k = key then none else s.marks.get? k :=
  KeyMap.get?_erase _ _ _

@[simp] theorem records_unlink :
    (s.unlink key).records = s.records := rfl

@[simp] theorem get?_records_write
    (content : Record)
    (b : String) :
    (s.write batch content).records.get? b =
      if b = batch then
        some { content := content, modified := s.now }
      else s.records.get? b :=
  KeyMap.get?_insert _ _ _ _

@[simp] theorem marks_write
    (content : Record) :
    (s.write batch content).marks = s.marks := rfl

@[simp] theorem get?_records_drop
    (b : String) :
    (s.drop batch).records.get? b =
      if b = batch then none else s.records.get? b :=
  KeyMap.get?_erase _ _ _

@[simp] theorem marks_drop :
    (s.drop batch).marks = s.marks := rfl

theorem owns_eq_false_iff :
    s.owns batch key = false ↔
      s.marks.get? key ≠ some batch := by
  simp [Store.owns]

theorem mem_batches
    (hMember : batch ∈ s.batches) :
    ∃ file, s.records.get? batch = some file := by
  have hKey := (List.mem_filter.mp hMember).1
  exact Option.isSome_iff_exists.mp (KeyMap.mem_keys.mp hKey)

theorem mem_sortedKeys
    {key : String}
    {keys : List String} :
    key ∈ sortedKeys keys ↔ key ∈ keys := by
  unfold sortedKeys
  rw [List.mem_dedup, List.mem_insertionSort]

end Tombstones

------------------------------------------------------------
-- Batch Ids
------------------------------------------------------------

namespace Tombstones

open RustText

theorem isDigit_of_mem_pad15
    {n : Nat}
    {c : Char}
    (hMember : c ∈ (pad15 n).toList) :
    c.isDigit = true := by
  unfold pad15 at hMember
  rw [String.toList_ofList] at hMember
  rcases List.mem_append.mp hMember with hZero | hDigit
  · rw [List.eq_of_mem_replicate hZero]
    rfl
  · exact isDigit_of_mem_toString hDigit

theorem digitsValue_pad15
    (n : Nat) :
    digitsValue (pad15 n).toList = n := by
  have hZeros :
      ∀ (k : Nat) (l : List Char),
        digitsValue (List.replicate k '0' ++ l) =
          digitsValue l := by
    intro k l
    induction k with
    | zero => rfl
    | succ k ih =>
        rw [List.replicate_succ, List.cons_append, ← ih]
        rfl
  unfold pad15
  rw [String.toList_ofList, hZeros, digitsValue_toString]

/- Ids of distinct milliseconds or processes are distinct. -/
theorem batchId_inj
    {millis pid millis' pid' : Nat}
    (hEq : batchId millis pid = batchId millis' pid') :
    millis = millis' ∧ pid = pid' := by
  have hDash : ∀ n, '-' ∉ (pad15 n).toList := by
    intro n hMember
    exact absurd (isDigit_of_mem_pad15 hMember) (by decide)
  have hText := congrArg String.toList hEq
  unfold batchId at hText
  rw [String.toList_ofList, String.toList_ofList] at hText
  have hFirst := congrArg (List.takeWhile (· ≠ '-')) hText
  have hRest := congrArg (List.dropWhile (· ≠ '-')) hText
  rw [takeWhile_append_cons (hDash millis),
    takeWhile_append_cons (hDash millis')] at hFirst
  rw [dropWhile_append_cons (hDash millis),
    dropWhile_append_cons (hDash millis')] at hRest
  have hMillis := congrArg digitsValue hFirst
  have hPid := congrArg digitsValue (List.cons.inj hRest).2
  rw [digitsValue_pad15, digitsValue_pad15] at hMillis
  rw [digitsValue_toString, digitsValue_toString] at hPid
  exact ⟨hMillis, hPid⟩

end Tombstones

------------------------------------------------------------
-- Steps
------------------------------------------------------------

namespace Tombstones

/- The steps of a call, one case for each branch. -/
inductive Step (s : Store) :
    Call → Choice → Store → Call → Prop
| checkFresh {pid key todo fresh}
    (hValid : validKey key = true) :
    Step s (.checking pid (key :: todo) fresh) .go s
      (.checking pid todo (fresh ++ [key]))
| checkSkip {pid key todo fresh} :
    Step s (.checking pid (key :: todo) fresh) .go s
      (.checking pid todo fresh)
| checkNone {pid} :
    Step s (.checking pid [] []) .go s .nothingNew
| mint {pid fresh}
    (hSome : fresh ≠ []) :
    Step s (.checking pid [] fresh) .go (s.mint pid)
      (.recording (batchId s.now pid) (sortedKeys fresh))
| record {batch fresh} :
    Step s (.recording batch fresh) .go
      (s.write batch (.keys fresh))
      (.linking batch s.now fresh [])
| recordFail {batch fresh} :
    Step s (.recording batch fresh) .fail s (.failed batch)
| link {batch since key todo marked}
    (hBare : s.marks.get? key = none) :
    Step s (.linking batch since (key :: todo) marked) .go
      (s.link key batch)
      (.linking batch since todo (marked ++ [key]))
| linkSkip {batch since key todo marked} :
    Step s (.linking batch since (key :: todo) marked) .go s
      (.linking batch since todo marked)
| linkFail {batch since todo marked} :
    Step s (.linking batch since todo marked) .fail s
      (.unlinking batch since marked)
| linked {batch since marked} :
    Step s (.linking batch since [] marked) .go s
      (.marked batch marked)
| unlink {batch since key todo} :
    Step s (.unlinking batch since (key :: todo)) .go
      (s.unlink key) (.unlinking batch since todo)
| unlinked {batch since} :
    Step s (.unlinking batch since []) .go (s.drop batch)
      (.failed batch)
| name {arg batch} :
    Step s (.undoing arg) .go s (.reading batch)
| noName {arg} :
    Step s (.undoing arg) .go s .noBatch
| readNone {batch} :
    Step s (.reading batch) .go s .noBatch
| readStub {batch secs} :
    Step s (.reading batch) .go s (.reaped batch secs)
| readKeys {batch list modified}
    (hRecord :
      s.records.get? batch =
        some { content := .keys list, modified := modified }) :
    Step s (.reading batch) .go s
      (.unmarking batch list (list.filter validKey) [] 0)
| unmark {batch list key todo unmarked removed}
    (hOwned : s.marks.get? key = some batch) :
    Step s (.unmarking batch list (key :: todo) unmarked removed)
      .go (s.unlink key)
      (.unmarking batch list todo (unmarked ++ [key]) removed)
| unmarkSkip {batch list key todo unmarked removed removed'}
    (hOther : s.marks.get? key ≠ some batch) :
    Step s (.unmarking batch list (key :: todo) unmarked removed)
      .go s (.unmarking batch list todo unmarked removed')
| undone {batch list unmarked removed} :
    Step s (.unmarking batch list [] unmarked removed) .go
      (s.drop batch) (.undone batch unmarked removed)
| undoFail {batch list unmarked removed} :
    Step s (.unmarking batch list [] unmarked removed) .go s
      (.undoFailed batch)
| sweep {present removed key}
    (hGone : key ∉ present) :
    Step s (.sweeping present removed) (.entry key)
      (s.unlink key) (.sweeping present (removed + 1))
| sweepSkip {present removed key} :
    Step s (.sweeping present removed) (.entry key) s
      (.sweeping present removed)
| swept {present removed} :
    Step s (.sweeping present removed) .go s
      (.naming s.now removed)
| listed {now removed} :
    Step s (.naming now removed) .go s
      (.aging now s.batches removed)
| pruned {now removed} :
    Step s (.aging now [] removed) .go s (.pruned removed)
| age {now batch batches removed} :
    Step s (.aging now (batch :: batches) removed) .go s
      (.judging now batch
        ((s.records.get? batch).map RecordFile.modified)
        batches removed)
| judgeNext {now batch modified batches removed} :
    Step s (.judging now batch modified batches removed) .go s
      (.aging now batches removed)
| judgeStub {now batch modified batches removed file secs list}
    (hRecord : s.records.get? batch = some file)
    (hStub : file.content = .stub secs list) :
    Step s (.judging now batch modified batches removed) .go s
      (.expiring now batch batches removed)
| judgeKeys {now batch modified batches removed file list}
    (hRecord : s.records.get? batch = some file)
    (hKeys : file.content = .keys list)
    (hOld : young now modified = false) :
    Step s (.judging now batch modified batches removed) .go s
      (.owning now batch list (list.filter validKey) batches
        removed)
| ownNext {now batch list key todo batches removed} :
    Step s (.owning now batch list (key :: todo) batches removed)
      .go s (.aging now batches removed)
| ownNot {now batch list key todo batches removed}
    (hOther : s.marks.get? key ≠ some batch) :
    Step s (.owning now batch list (key :: todo) batches removed)
      .go s (.owning now batch list todo batches removed)
| ownNone {now batch list batches removed} :
    Step s (.owning now batch list [] batches removed) .go s
      (.stubbing now batch list batches removed)
| stub {now batch list batches removed} :
    Step s (.stubbing now batch list batches removed) .go
      (s.write batch (.stub (now / 1000) list))
      (.aging now batches removed)
| stubFail {now batch list batches removed} :
    Step s (.stubbing now batch list batches removed) .fail s
      (.aging now batches removed)
| expire {now batch batches removed} :
    Step s (.expiring now batch batches removed) .go
      (s.drop batch) (.aging now batches removed)

variable {s s' : Store} {c c' : Call} {e : Choice}

theorem step_of_markMessages
    (hAct : markMessages s c e = some (s', c')) :
    Step s c e s' c' := by
  unfold markMessages at hAct
  split at hAct
  · split at hAct
    · rename_i hFresh
      cases hAct
      exact .checkFresh hFresh.1
    · cases hAct
      exact .checkSkip
  · split at hAct
    · rename_i hEmpty
      cases hAct
      rw [List.isEmpty_iff.mp hEmpty]
      exact .checkNone
    · rename_i hSome
      cases hAct
      exact .mint (by simpa using hSome)
  · cases hAct
    exact .record
  · cases hAct
    exact .recordFail
  · split at hAct
    · rename_i hBare
      cases hAct
      exact .link (Option.isNone_iff_eq_none.mp hBare)
    · cases hAct
      exact .linkSkip
  · cases hAct
    exact .linkFail
  · cases hAct
    exact .linked
  · cases hAct
    exact .unlink
  · cases hAct
    exact .unlinked
  · cases hAct

theorem step_of_undo
    (hAct : undo s c e = some (s', c')) :
    Step s c e s' c' := by
  unfold undo at hAct
  split at hAct
  · split at hAct
    · cases hAct
      exact .name
    · cases hAct
      exact .noName
  · split at hAct
    · cases hAct
      exact .name
    · cases hAct
      exact .noName
  · split at hAct
    · cases hAct
      exact .readNone
    · rename_i file hRecord
      rcases file with ⟨content, modified⟩
      split at hAct
      · cases hAct
        exact .readStub
      · rename_i list hKeys
        cases hAct
        simp only at hKeys
        rw [hKeys] at hRecord
        exact .readKeys hRecord
  · split at hAct
    · rename_i hOwned
      cases hAct
      exact .unmark (by simpa [Store.owns] using hOwned)
    · rename_i hOther
      have hNot := (owns_eq_false_iff s _ _).mp
        (Bool.eq_false_iff.mpr hOther)
      split at hAct
      · cases hAct
        exact .unmarkSkip hNot
      · cases hAct
        exact .unmarkSkip hNot
  · split at hAct
    · cases hAct
      exact .undone
    · cases hAct
      exact .undoFail
  · cases hAct

theorem step_of_prune
    (hAct : prune s c e = some (s', c')) :
    Step s c e s' c' := by
  unfold prune at hAct
  split at hAct
  · split at hAct
    · rename_i hGone
      cases hAct
      exact .sweep hGone.1
    · cases hAct
      exact .sweepSkip
  · cases hAct
    exact .swept
  · cases hAct
    exact .listed
  · cases hAct
    exact .pruned
  · cases hAct
    exact .age
  · split at hAct
    · cases hAct
      exact .judgeNext
    · rename_i file hRecord
      split at hAct
      · cases hAct
        exact .judgeNext
      · rename_i hOld
        split at hAct
        · rename_i secs list hStub
          split at hAct
          · cases hAct
            exact .judgeStub hRecord hStub
          · cases hAct
            exact .judgeNext
        · rename_i list hKeys
          cases hAct
          exact .judgeKeys hRecord hKeys
            (Bool.eq_false_iff.mpr hOld)
  · split at hAct
    · cases hAct
      exact .ownNext
    · rename_i hOther
      cases hAct
      exact .ownNot
        ((owns_eq_false_iff s _ _).mp
          (Bool.eq_false_iff.mpr hOther))
  · cases hAct
    exact .ownNone
  · cases hAct
    exact .stub
  · cases hAct
    exact .stubFail
  · cases hAct
    exact .expire
  · cases hAct

/- Each step of a call is one of the cases. -/
theorem step_of_act
    (hAct : act s c e = some (s', c')) :
    Step s c e s' c' := by
  unfold act at hAct
  rcases Option.or_eq_some_iff.mp hAct with
    hMark | ⟨-, hRest⟩
  · exact step_of_markMessages hMark
  · rcases Option.or_eq_some_iff.mp hRest with
      hUndo | ⟨-, hPrune⟩
    · exact step_of_undo hUndo
    · exact step_of_prune hPrune

end Tombstones
