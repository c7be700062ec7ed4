import AgentWays.Tombstones.MarksSpec

/-
  What the calls on the mark store rely on, and which
  changes of the store leave it to them.

  The record of a batch is written before its marks and
  removed after them, so a mark's batch has a record that
  lists it. What breaks this is a mark that is linked when
  an undo of its batch has passed its key or has removed the
  record.

  Key definitions include:
    * `Tombstones.timely`
    * `Tombstones.linksInTime`
    * `Tombstones.StoreOk`
    * `Tombstones.Own`
    * `Tombstones.Apart`
    * `Tombstones.Calm`

  Main declarations:
    * `Tombstones.own_of_calm`
    * `Tombstones.StoreOk.bare_of_passed`
-/

------------------------------------------------------------
-- Places
------------------------------------------------------------

namespace Tombstones

/- Whether a call has returned. -/
def Call.ended : Call → Bool
| .marked _ _ | .nothingNew | .failed _ | .undone _ _ _
| .reaped _ _ | .noBatch | .undoFailed _ | .pruned _ => true
| _ => false

/- Whether a call is an undo at work. -/
def Call.isUndo : Call → Bool
| .undoing _ | .reading _ | .unmarking _ _ _ _ _ => true
| _ => false

/- Whether a call is a prune at work. -/
def Call.isPrune : Call → Bool
| .sweeping _ _ | .naming _ _ | .aging _ _ _
| .judging _ _ _ _ _ | .owning _ _ _ _ _ _
| .stubbing _ _ _ _ _ | .expiring _ _ _ _ => true
| _ => false

/- The batch that a call is at. -/
def Call.batch : Call → Option String
| .recording b _ | .linking b _ _ _ | .unlinking b _ _
| .failed b | .unmarking b _ _ _ _ | .undone b _ _
| .judging _ b _ _ _ | .owning _ b _ _ _ _
| .stubbing _ b _ _ _ | .expiring _ b _ _ => some b
| _ => none

/- The batch that a delete writes, or failed to. -/
def Call.writes : Call → Option String
| .recording b _ | .linking b _ _ _ | .unlinking b _ _
| .failed b => some b
| _ => none

/- The batch whose record is still to be written. -/
def Call.unwritten : Call → Option String
| .recording b _ => some b
| _ => none

/- When the record of a delete at work was written. -/
def Call.since : Call → Option Nat
| .linking _ since _ _ | .unlinking _ since _ => some since
| _ => none

/- The batch whose marks a call counts on. -/
def Call.watches : Call → Option String
| .linking b _ _ _ | .unlinking b _ _ | .unmarking b _ _ _ _
| .owning _ b _ _ _ _ | .stubbing _ b _ _ _ => some b
| _ => none

/- The time by which a prune goes. -/
def Call.clock : Call → Option Nat
| .naming now _ | .aging now _ _ | .judging now _ _ _ _
| .owning now _ _ _ _ _ | .stubbing now _ _ _ _
| .expiring now _ _ _ => some now
| _ => none

/- The batches whose records a call has seen. -/
def Call.knows : Call → List String
| .unmarking b _ _ _ _ | .undone b _ _ => [b]
| .aging _ bs _ => bs
| .judging _ b _ bs _ | .owning _ b _ _ bs _
| .stubbing _ b _ bs _ | .expiring _ b bs _ => b :: bs
| _ => []

/- The batch a prune has found old enough to be written. -/
def Call.settled : Call → Option String
| .owning _ b _ _ _ _ | .stubbing _ b _ _ _ => some b
| _ => none

/- The keys that an undo or a prune has still to look at. -/
def Call.awaits : Call → List String
| .unmarking _ _ todo _ _ | .owning _ _ _ todo _ _ => todo
| _ => []

/-
  Whether a move keeps to the clock: no delete outlives the
  grace, and no process mints two ids in one millisecond.
-/
def timely
    (s : Calls) : Move → Bool
| .start _ => true
| .step i _ =>
    match s.calls[i]? with
    | some (.checking pid [] (_ :: _)) =>
        !s.shared.minted.contains (s.shared.now, pid)
    | _ => true
| .world d =>
    s.calls.all
      (fun c =>
        c.since.all (fun since => s.shared.now + d < since + grace))

/-
  Whether a move links no mark too late: its batch's record
  is there, and no undo at work on it has passed the key.
-/
def linksInTime
    (s : Calls) : Move → Bool
| .step i .go =>
    match s.calls[i]? with
    | some (.linking batch _ (key :: _) _) =>
        (s.shared.marks.get? key).isSome ||
          (s.shared.records.get? batch).isSome &&
            s.calls.all
              (fun c =>
                match c with
                | .unmarking b _ todo _ _ =>
                    b ≠ batch || todo.contains key
                | _ => true)
    | _ => true
| _ => true

end Tombstones

------------------------------------------------------------
-- Invariants
------------------------------------------------------------

namespace Tombstones

def Minted
    (s : Store)
    (b : String) : Prop :=
  ∃ p ∈ s.minted, batchId p.1 p.2 = b

/- The record of a batch holds keys. -/
def Listed
    (s : Store)
    (b : String)
    (file : RecordFile)
    (list : List String) : Prop :=
  s.records.get? b = some file ∧ file.content = .keys list

/- A batch that has no record, or a stub. -/
def Spent
    (s : Store)
    (b : String) : Prop :=
  ∀ file list, ¬ Listed s b file list

/-
  A list read from a batch's record, with no key of it but
  those still to do marked by the batch.
-/
structure Passed
    (s : Store)
    (b : String)
    (list todo : List String) : Prop where
  same : ∀ file keys, Listed s b file keys → keys = list
  bare :
    ∀ k ∈ list, validKey k = true → k ∉ todo →
      s.marks.get? k ≠ some b

/-
  A batch at work: its record is no stub and lists the keys
  to do, and its marks are among those it has noted.
-/
structure Writing
    (s : Store)
    (b : String)
    (since : Nat)
    (todo marked : List String) : Prop where
  early : s.now < since + grace
  record :
    ∀ file, s.records.get? b = some file →
      file.modified = since ∧
        ∃ list, file.content = .keys list ∧
          ∀ k ∈ todo, k ∈ list
  valid : ∀ k ∈ todo, validKey k = true
  noted : ∀ k, s.marks.get? k = some b → k ∈ marked

/- What holds of the store. -/
structure StoreOk
    (s : Store) : Prop where
  marked :
    ∀ k b, s.marks.get? k = some b →
      ∃ file list, Listed s b file list ∧ k ∈ list ∧
        validKey k = true
  minted :
    ∀ b file, s.records.get? b = some file → Minted s b

/- What a call at its place relies on. -/
def Rests
    (s : Store) : Call → Prop
| .checking _ _ fresh => ∀ k ∈ fresh, validKey k = true
| .recording b fresh =>
    s.records.get? b = none ∧ ∀ k ∈ fresh, validKey k = true
| .linking b since todo marked => Writing s b since todo marked
| .unlinking b since todo => Writing s b since [] todo
| .failed b => s.records.get? b = none
| .unmarking b list todo _ _ => Passed s b list todo
| .undone b _ _ => Spent s b
| .judging _ b modified _ _ =>
    ∀ file list, Listed s b file list →
      modified = some file.modified
| .owning _ b list todo _ _ => Passed s b list todo
| .stubbing _ b list _ _ => Passed s b list []
| .expiring _ b _ _ => Spent s b
| _ => True

/- What a call relies on, its batches being minted. -/
structure Own
    (s : Store)
    (c : Call) : Prop where
  rests : Rests s c
  clock : ∀ now ∈ c.clock, now ≤ s.now
  wrote : ∀ b, c.writes = some b → Minted s b
  known : ∀ b ∈ c.knows, Minted s b

/- What keeps a delete apart from another call. -/
structure Clear
    (c d : Call) : Prop where
  once : ∀ b, c.writes = some b → d.writes ≠ some b
  unread : ∀ b, c.unwritten = some b → b ∉ d.knows
  unsettled : ∀ b, c.writes = some b → d.settled ≠ some b

def Apart
    (c d : Call) : Prop :=
  Clear c d ∧ Clear d c

theorem Apart.symm
    (c d : Call)
    (hApart : Apart c d) :
    Apart d c :=
  ⟨hApart.2, hApart.1⟩

end Tombstones

------------------------------------------------------------
-- Frames
------------------------------------------------------------

namespace Tombstones

variable {s s' : Store} {c d : Call} {b k : String}

/- A change of the store that leaves a call what it needs. -/
structure Calm
    (s s' : Store)
    (d : Call) : Prop where
  minted : ∀ p ∈ s.minted, p ∈ s'.minted
  now : s.now ≤ s'.now
  early : ∀ since ∈ d.since, s'.now < since + grace
  marks :
    ∀ b ∈ d.watches, ∀ k, s'.marks.get? k = some b →
      s.marks.get? k = some b ∨ k ∈ d.awaits
  records :
    ∀ b ∈ d.batch, ∀ file list, Listed s' b file list →
      Listed s b file list
  writes :
    ∀ b ∈ d.writes, ∀ file, s'.records.get? b = some file →
      s.records.get? b = some file

theorem Minted.calm
    (hMinted : Minted s b)
    (hCalm : ∀ p ∈ s.minted, p ∈ s'.minted) :
    Minted s' b := by
  rcases hMinted with ⟨p, hMember, hId⟩
  exact ⟨p, hCalm p hMember, hId⟩

theorem eq_none_of_calm
    (hNone : s.records.get? b = none)
    (hWrites :
      ∀ file, s'.records.get? b = some file →
        s.records.get? b = some file) :
    s'.records.get? b = none := by
  cases hAt : s'.records.get? b with
  | none => rfl
  | some file =>
      have hOld := hWrites file hAt
      rw [hNone] at hOld
      cases hOld

theorem Passed.calm
    {list todo : List String}
    (hPassed : Passed s b list todo)
    (hMarks :
      ∀ k, s'.marks.get? k = some b →
        s.marks.get? k = some b ∨ k ∈ todo)
    (hRecords :
      ∀ file list, Listed s' b file list →
        Listed s b file list) :
    Passed s' b list todo := by
  refine ⟨?_, ?_⟩
  · intro file keys hListed
    exact hPassed.same file keys (hRecords file keys hListed)
  · intro k hMember hValid hDone hMark
    rcases hMarks k hMark with hOld | hTodo
    · exact hPassed.bare k hMember hValid hDone hOld
    · exact hDone hTodo

theorem Writing.calm
    {since : Nat}
    {todo marked : List String}
    (hWriting : Writing s b since todo marked)
    (hEarly : s'.now < since + grace)
    (hMarks :
      ∀ k, s'.marks.get? k = some b →
        s.marks.get? k = some b ∨ k ∈ [])
    (hWrites :
      ∀ file, s'.records.get? b = some file →
        s.records.get? b = some file) :
    Writing s' b since todo marked := by
  refine ⟨hEarly, ?_, hWriting.valid, ?_⟩
  · intro file hRecord
    exact hWriting.record file (hWrites file hRecord)
  · intro k hMark
    rcases hMarks k hMark with hOld | hNone
    · exact hWriting.noted k hOld
    · cases hNone

/- A call keeps what it relies on through a calm change. -/
theorem own_of_calm
    (hOwn : Own s d)
    (hCalm : Calm s s' d) :
    Own s' d := by
  refine ⟨?_, ?_, ?_, ?_⟩
  · have hRests := hOwn.rests
    cases d with
    | recording b fresh =>
        exact ⟨eq_none_of_calm hRests.1 (hCalm.writes b rfl),
          hRests.2⟩
    | linking b since todo marked =>
        exact
          Writing.calm hRests (hCalm.early since rfl)
            (hCalm.marks b rfl) (hCalm.writes b rfl)
    | unlinking b since todo =>
        exact
          Writing.calm hRests (hCalm.early since rfl)
            (hCalm.marks b rfl) (hCalm.writes b rfl)
    | failed b =>
        exact eq_none_of_calm hRests (hCalm.writes b rfl)
    | unmarking b list todo unmarked removed =>
        exact
          Passed.calm hRests (hCalm.marks b rfl)
            (hCalm.records b rfl)
    | undone b unmarked removed =>
        intro file list hListed
        exact hRests file list (hCalm.records b rfl _ _ hListed)
    | judging now b modified batches removed =>
        intro file list hListed
        exact hRests file list (hCalm.records b rfl _ _ hListed)
    | owning now b list todo batches removed =>
        exact
          Passed.calm hRests (hCalm.marks b rfl)
            (hCalm.records b rfl)
    | stubbing now b list batches removed =>
        exact
          Passed.calm hRests (hCalm.marks b rfl)
            (hCalm.records b rfl)
    | expiring now b batches removed =>
        intro file list hListed
        exact hRests file list (hCalm.records b rfl _ _ hListed)
    | _ => exact hRests
  · intro now hClock
    exact Nat.le_trans (hOwn.clock now hClock) hCalm.now
  · intro b hWrites
    exact (hOwn.wrote b hWrites).calm hCalm.minted
  · intro b hKnows
    exact (hOwn.known b hKnows).calm hCalm.minted

theorem Own.early
    (hOwn : Own s d) :
    ∀ since ∈ d.since, s.now < since + grace := by
  intro since hSince
  have hRests := hOwn.rests
  cases d with
  | linking b since' todo marked =>
      cases hSince
      exact hRests.early
  | unlinking b since' todo =>
      cases hSince
      exact hRests.early
  | _ => cases hSince

end Tombstones

------------------------------------------------------------
-- Changes
------------------------------------------------------------

namespace Tombstones

variable {s : Store} {d : Call} {b k : String}

theorem calm_refl
    (hOwn : Own s d) :
    Calm s s d :=
  ⟨fun _ hMember => hMember, Nat.le_refl _, hOwn.early,
    fun _ _ _ hMark => Or.inl hMark, fun _ _ _ _ hList => hList,
    fun _ _ _ hRecord => hRecord⟩

theorem calm_unlink
    (hOwn : Own s d)
    (k : String) :
    Calm s (s.unlink k) d := by
  refine ⟨fun _ hMember => hMember, Nat.le_refl _, hOwn.early,
    ?_, fun _ _ _ _ hList => hList, fun _ _ _ hRecord => hRecord⟩
  intro b _ k' hMark
  rw [get?_marks_unlink] at hMark
  split at hMark
  · cases hMark
  · exact Or.inl hMark

theorem calm_drop
    (hOwn : Own s d)
    (b : String) :
    Calm s (s.drop b) d := by
  have hSame :
      ∀ b' file, (s.drop b).records.get? b' = some file →
        s.records.get? b' = some file := by
    intro b' file hRecord
    rw [get?_records_drop] at hRecord
    split at hRecord
    · cases hRecord
    · exact hRecord
  refine ⟨fun _ hMember => hMember, Nat.le_refl _, hOwn.early,
    fun _ _ _ hMark => Or.inl hMark, ?_, ?_⟩
  · intro b' _ file list hListed
    exact ⟨hSame b' file hListed.1, hListed.2⟩
  · intro b' _ file hRecord
    exact hSame b' file hRecord

theorem calm_mint
    (hOwn : Own s d)
    (pid : Nat) :
    Calm s (s.mint pid) d :=
  ⟨fun _ hMember => List.mem_cons_of_mem _ hMember,
    Nat.le_refl _, hOwn.early, fun _ _ _ hMark => Or.inl hMark,
    fun _ _ _ _ hList => hList, fun _ _ _ hRecord => hRecord⟩

theorem calm_tick
    {n : Nat}
    (hEarly : ∀ since ∈ d.since, s.now + n < since + grace) :
    Calm s (s.tick n) d :=
  ⟨fun _ hMember => hMember, Nat.le_add_right _ _, hEarly,
    fun _ _ _ hMark => Or.inl hMark, fun _ _ _ _ hList => hList,
    fun _ _ _ hRecord => hRecord⟩

/- A mark is linked calmly for calls that are at other keys. -/
theorem calm_link
    (hOwn : Own s d)
    (hOther : d.watches = some b → k ∈ d.awaits) :
    Calm s (s.link k b) d := by
  refine ⟨fun _ hMember => hMember, Nat.le_refl _, hOwn.early,
    ?_, fun _ _ _ _ hList => hList, fun _ _ _ hRecord => hRecord⟩
  intro b' hWatches k' hMark
  rw [get?_marks_link] at hMark
  split at hMark
  · rename_i hKey
    cases hMark
    rw [hKey]
    exact Or.inr (hOther hWatches)
  · exact Or.inl hMark

/-
  A record is written calmly for a call that does not write
  its batch, and for keys one that is not at it.
-/
theorem calm_write
    (hOwn : Own s d)
    {content : Record}
    (hWrites : d.writes ≠ some b)
    (hKeys :
      ∀ list, content = .keys list → d.batch ≠ some b) :
    Calm s (s.write b content) d := by
  refine ⟨fun _ hMember => hMember, Nat.le_refl _, hOwn.early,
    fun _ _ _ hMark => Or.inl hMark, ?_, ?_⟩
  · intro b' hBatch file list hListed
    rcases hListed with ⟨hRecord, hContent⟩
    rw [get?_records_write] at hRecord
    split at hRecord
    · rename_i hB
      cases hRecord
      rw [hB] at hBatch
      exact absurd hBatch (hKeys list hContent)
    · exact ⟨hRecord, hContent⟩
  · intro b' hBatch file hRecord
    rw [get?_records_write] at hRecord
    split at hRecord
    · rename_i hB
      rw [hB] at hBatch
      exact absurd hBatch hWrites
    · exact hRecord

/- A batch that is spent or passed has no mark. -/
theorem StoreOk.bare_of_spent
    (hStore : StoreOk s)
    (hSpent : Spent s b)
    (k : String) :
    s.marks.get? k ≠ some b := by
  intro hMark
  rcases hStore.marked k b hMark with ⟨file, list, hListed, -⟩
  exact hSpent file list hListed

theorem StoreOk.bare_of_passed
    (hStore : StoreOk s)
    {list : List String}
    (hPassed : Passed s b list [])
    (k : String) :
    s.marks.get? k ≠ some b := by
  intro hMark
  rcases hStore.marked k b hMark with
    ⟨file, keys, hListed, hMember, hValid⟩
  rw [hPassed.same file keys hListed] at hMember
  exact hPassed.bare k hMember hValid (by simp) hMark

theorem spent_of_none
    (hNone : s.records.get? b = none) :
    Spent s b := by
  intro file list hListed
  rw [hListed.1] at hNone
  cases hNone

theorem StoreOk.unlink
    (hStore : StoreOk s)
    (k : String) :
    StoreOk (s.unlink k) := by
  refine ⟨?_, hStore.minted⟩
  intro k' b hMark
  rw [get?_marks_unlink] at hMark
  split at hMark
  · cases hMark
  · exact hStore.marked k' b hMark

/- A record without marks is removed or written over. -/
theorem StoreOk.drop
    (hStore : StoreOk s)
    (hBare : ∀ k, s.marks.get? k ≠ some b) :
    StoreOk (s.drop b) := by
  refine ⟨?_, ?_⟩
  · intro k b' hMark
    rcases hStore.marked k b' hMark with
      ⟨file, list, hListed, hMember⟩
    have hOther : b' ≠ b := by
      rintro rfl
      exact hBare k hMark
    refine ⟨file, list, ⟨?_, hListed.2⟩, hMember⟩
    rw [get?_records_drop, if_neg hOther]
    exact hListed.1
  · intro b' file hRecord
    rw [get?_records_drop] at hRecord
    split at hRecord
    · cases hRecord
    · exact hStore.minted b' file hRecord

theorem StoreOk.write
    (hStore : StoreOk s)
    (hBare : ∀ k, s.marks.get? k ≠ some b)
    (hMinted : Minted s b)
    (content : Record) :
    StoreOk (s.write b content) := by
  refine ⟨?_, ?_⟩
  · intro k b' hMark
    rcases hStore.marked k b' hMark with
      ⟨file, list, hListed, hMember⟩
    have hOther : b' ≠ b := by
      rintro rfl
      exact hBare k hMark
    refine ⟨file, list, ⟨?_, hListed.2⟩, hMember⟩
    rw [get?_records_write, if_neg hOther]
    exact hListed.1
  · intro b' file hRecord
    rw [get?_records_write] at hRecord
    split at hRecord
    · rename_i hB
      rw [hB]
      exact hMinted
    · exact hStore.minted b' file hRecord

theorem StoreOk.link
    (hStore : StoreOk s)
    {file : RecordFile}
    {list : List String}
    (hListed : Listed s b file list)
    (hMember : k ∈ list)
    (hValid : validKey k = true) :
    StoreOk (s.link k b) := by
  refine ⟨?_, hStore.minted⟩
  intro k' b' hMark
  rw [get?_marks_link] at hMark
  split at hMark
  · rename_i hKey
    cases hMark
    rw [hKey]
    exact ⟨file, list, hListed, hMember, hValid⟩
  · exact hStore.marked k' b' hMark

theorem StoreOk.mint
    (hStore : StoreOk s)
    (pid : Nat) :
    StoreOk (s.mint pid) := by
  refine ⟨hStore.marked, ?_⟩
  intro b file hRecord
  have hOld : Minted s b := hStore.minted b file hRecord
  exact hOld.calm (fun _ h => List.mem_cons_of_mem _ h)

end Tombstones
