import AgentWays.Groups.StoreSpec

/-
  What a rename and the sweep do to the store.

  Both change every entry at once. The sweep saves up to two
  times and removes directories in between; the entries the
  next operation loads are those it last had in memory.

  Key definitions include:
    * `Groups.sweepEntry`, the sweep of one entry
    * `Groups.sweptState`
    * `Groups.remainingState`

  Main declarations:
    * `Groups.loadState_renameMember`
    * `Groups.loadState_sweep`
    * `Groups.hasDir_sweep`
-/

------------------------------------------------------------
-- Renames
------------------------------------------------------------

namespace Groups

/- A rename brings in the new id and nobody else. -/
theorem mem_renameEntry
    {entry : GroupEntry}
    {old new m : String}
    (hMem : m ∈ (renameEntry old new entry).members) :
    m ∈ entry.members ∨ m = new := by
  unfold renameEntry at hMem
  split at hMem
  · rcases List.mem_append.mp hMem with hOld | hAdded
    · exact Or.inl (List.mem_of_mem_filter hOld)
    · exact Or.inr (List.mem_singleton.mp hAdded)
  · exact Or.inl hMem

theorem renameEntry_description
    (old new : String)
    (entry : GroupEntry) :
    (renameEntry old new entry).description =
      entry.description := by
  unfold renameEntry
  split
  · rfl
  · rfl

theorem EntrySafe.renameEntry
    {entry : GroupEntry}
    {new : String}
    (hEntry : EntrySafe entry)
    (old : String)
    (hNew : MemberSafe new) :
    EntrySafe (renameEntry old new entry) := by
  refine ⟨?_, ?_⟩
  · intro m hMem
    rcases mem_renameEntry hMem with hOld | hAdded
    · exact hEntry.members m hOld
    · rw [hAdded]
      exact hNew
  · rw [renameEntry_description]
    exact hEntry.description

theorem mapEntries_eq_self
    {state : GroupState}
    {edit : GroupEntry → GroupEntry}
    (hSame :
      ∀ name e, state.get? name = some e → edit e = e) :
    mapEntries edit state = state := by
  apply KeyMap.ext_get?
  intro name
  rw [get?_mapEntries]
  cases hGet : state.get? name with
  | none => rfl
  | some e => rw [Option.map_some, hSame name e hGet]

/- Where nobody is `old`, a rename changes nothing. -/
theorem renameIn_unchanged
    {state : GroupState}
    {old new : String}
    (hNone : (renameIn state old new).2 = false) :
    (renameIn state old new).1 = state := by
  apply mapEntries_eq_self
  intro name e hGet
  have hMem := KeyMap.mem_entries.mpr hGet
  unfold renameIn at hNone
  rw [List.any_eq_false] at hNone
  have hOut := hNone (name, e) hMem
  unfold renameEntry
  rw [if_neg hOut]

theorem loadState_renameMember
    {new : String}
    (s : Store)
    (old : String)
    (hNew : MemberSafe new) :
    (renameMember s old new).loadState =
      mapEntries (renameEntry old new) s.loadState := by
  unfold renameMember
  dsimp only
  rw [loadState_moveRecords]
  split
  · apply loadState_saveState
    apply (lineSafe_loadState s).mapEntries
    intro e hEntry
    exact hEntry.renameEntry old hNew
  · rename_i hNone
    exact (renameIn_unchanged
      (by simpa using hNone)).symm

theorem hasDir_renameMember
    (s : Store)
    (old new n : String) :
    (renameMember s old new).hasDir n ↔ s.hasDir n := by
  unfold renameMember
  dsimp only
  rw [hasDir_moveRecords]
  split
  · exact hasDir_saveState _ _ _
  · exact Iff.rfl

end Groups

------------------------------------------------------------
-- The Sweep
------------------------------------------------------------

namespace Groups

/- What the sweep makes of one entry. -/
def sweepEntry
    (moved : List (String × String))
    (dropped : List String)
    (entry : GroupEntry) : GroupEntry :=
  let renamed :=
    moved.foldl (fun e p => renameEntry p.1 p.2 e) entry
  { renamed with
    members :=
      renamed.members.filter
        (fun sid => !dropped.contains sid) }

theorem get?_foldl_renameIn
    (moved : List (String × String))
    (state : GroupState)
    (name : String) :
    (moved.foldl
        (fun state p => (renameIn state p.1 p.2).1)
        state).get? name =
      (state.get? name).map
        (fun e =>
          moved.foldl
            (fun e p => renameEntry p.1 p.2 e) e) := by
  induction moved generalizing state with
  | nil => simp
  | cons p moved ih =>
      rw [List.foldl_cons, ih, renameIn, get?_mapEntries,
        Option.map_map]
      rfl

theorem sweepMembers_eq
    (moved : List (String × String))
    (dropped : List String)
    (state : GroupState) :
    sweepMembers moved dropped state =
      mapEntries (sweepEntry moved dropped) state := by
  apply KeyMap.ext_get?
  intro name
  unfold sweepMembers
  rw [get?_mapEntries, get?_foldl_renameIn, get?_mapEntries,
    Option.map_map]
  rfl

/- The sweep brings in the successors and nobody else. -/
theorem mem_sweepEntry
    {moved : List (String × String)}
    {dropped : List String}
    {entry : GroupEntry}
    {m : String}
    (hMem : m ∈ (sweepEntry moved dropped entry).members) :
    m ∈ entry.members ∨ ∃ p ∈ moved, m = p.2 := by
  have hRenamed := List.mem_of_mem_filter hMem
  clear hMem
  induction moved generalizing entry with
  | nil => exact Or.inl hRenamed
  | cons p moved ih =>
      rcases ih hRenamed with hOld | ⟨q, hMem, hEq⟩
      · rcases mem_renameEntry hOld with hEntry | hAdded
        · exact Or.inl hEntry
        · exact Or.inr ⟨p, by simp, hAdded⟩
      · exact Or.inr ⟨q, List.mem_cons_of_mem _ hMem, hEq⟩

theorem sweepEntry_description
    (moved : List (String × String))
    (dropped : List String)
    (entry : GroupEntry) :
    (sweepEntry moved dropped entry).description =
      entry.description := by
  change
    (moved.foldl
      (fun e p => renameEntry p.1 p.2 e) entry).description =
      entry.description
  induction moved generalizing entry with
  | nil => rfl
  | cons p moved ih =>
      rw [List.foldl_cons, ih, renameEntry_description]

theorem EntrySafe.sweepEntry
    {moved : List (String × String)}
    {entry : GroupEntry}
    (dropped : List String)
    (hEntry : EntrySafe entry)
    (hMoved : ∀ p ∈ moved, MemberSafe p.2) :
    EntrySafe (sweepEntry moved dropped entry) := by
  refine ⟨?_, ?_⟩
  · intro m hMem
    rcases mem_sweepEntry hMem with hOld | ⟨p, hIn, hEq⟩
    · exact hEntry.members m hOld
    · rw [hEq]
      exact hMoved p hIn
  · rw [sweepEntry_description]
    exact hEntry.description

theorem get?_foldl_erase
    (names : List String)
    (state : GroupState)
    (name : String) :
    (names.foldl KeyMap.erase state).get? name =
      if name ∈ names then none else state.get? name := by
  induction names generalizing state with
  | nil => simp
  | cons n names ih =>
      rw [List.foldl_cons, ih, KeyMap.get?_erase]
      by_cases hIn : name ∈ names
      · simp [hIn]
      · by_cases hEq : name = n
        · simp [hEq]
        · simp [hIn, hEq]

/- The entries of a sweep before it removes channels. -/
def sweptState
    (s : Store)
    (isLive : String → Bool)
    (successor : String → Option String) : GroupState :=
  mapEntries
    (sweepEntry
      (movedMembers isLive successor s.loadState)
      (droppedMembers isLive successor s.loadState))
    s.loadState

/- The entries a sweep leaves. -/
def remainingState
    (s : Store)
    (isLive : String → Bool)
    (successor : String → Option String) : GroupState :=
  (abandonedChannels
      (sweptState s isLive successor)).foldl KeyMap.erase
    (sweptState s isLive successor)

theorem mem_movedMembers
    {isLive : String → Bool}
    {successor : String → Option String}
    {state : GroupState}
    {p : String × String}
    (hMem : p ∈ movedMembers isLive successor state) :
    successor p.1 = some p.2 := by
  unfold movedMembers at hMem
  rw [List.mem_filterMap] at hMem
  rcases hMem with ⟨sid, -, hSome⟩
  rw [Option.map_eq_some_iff] at hSome
  rcases hSome with ⟨new, hNew, hPair⟩
  rw [← hPair]
  exact hNew

theorem lineSafe_sweptState
    {successor : String → Option String}
    (s : Store)
    (isLive : String → Bool)
    (hSafe :
      ∀ sid new, successor sid = some new →
        MemberSafe new) :
    LineSafe (sweptState s isLive successor) := by
  apply (lineSafe_loadState s).mapEntries
  intro e hEntry
  apply hEntry.sweepEntry
  intro p hMem
  exact hSafe p.1 p.2 (mem_movedMembers hMem)

/- With nobody moved or dropped the state is as it was. -/
theorem sweptState_eq_self
    {s : Store}
    {isLive : String → Bool}
    {successor : String → Option String}
    (hDropped :
      droppedMembers isLive successor s.loadState = [])
    (hMoved :
      movedMembers isLive successor s.loadState = []) :
    sweptState s isLive successor = s.loadState := by
  unfold sweptState
  rw [hDropped, hMoved]
  apply mapEntries_eq_self
  intro name e hGet
  simp [sweepEntry]

/- The store once the sweep has moved and dropped members. -/
def movedStore
    (s : Store)
    (isLive : String → Bool)
    (successor : String → Option String) : Store :=
  let moved := movedMembers isLive successor s.loadState
  let dropped := droppedMembers isLive successor s.loadState
  moved.foldl (fun s p => moveRecords s p.1 p.2)
    (if !dropped.isEmpty || !moved.isEmpty then
      s.saveState (sweptState s isLive successor)
    else s)

/- The store once the sweep has removed channels. -/
def removedStore
    (s : Store)
    (isLive : String → Bool)
    (successor : String → Option String) : Store :=
  let toRemove :=
    abandonedChannels (sweptState s isLive successor)
  let t :=
    toRemove.foldl Store.removeDir
      (movedStore s isLive successor)
  if !toRemove.isEmpty then
    t.saveState (remainingState s isLive successor)
  else t

theorem sweep_eq
    (s : Store)
    (isLive : String → Bool)
    (successor : String → Option String)
    (oldEnough : String → Bool) :
    (cleanupStaleMoving s isLive successor oldEnough).1 =
      (orphanDirs (removedStore s isLive successor)
        (remainingState s isLive successor)
        oldEnough).foldl Store.removeDir
        (removedStore s isLive successor) := by
  unfold cleanupStaleMoving
  dsimp only
  rw [sweepMembers_eq]
  rfl

theorem loadState_movedStore
    {successor : String → Option String}
    (s : Store)
    (isLive : String → Bool)
    (hSafe :
      ∀ sid new, successor sid = some new →
        MemberSafe new) :
    (movedStore s isLive successor).loadState =
      sweptState s isLive successor := by
  unfold movedStore
  dsimp only
  rw [loadState_foldl_moveRecords]
  split
  · exact loadState_saveState s
      (lineSafe_sweptState s isLive hSafe)
  · rename_i hQuiet
    simp only [Bool.or_eq_true, Bool.not_eq_true',
      not_or, Bool.not_eq_false,
      List.isEmpty_iff] at hQuiet
    exact (sweptState_eq_self hQuiet.1 hQuiet.2).symm

/- The entries the next operation loads after a sweep. -/
theorem loadState_sweep
    {successor : String → Option String}
    (s : Store)
    (isLive : String → Bool)
    (oldEnough : String → Bool)
    (hSafe :
      ∀ sid new, successor sid = some new →
        MemberSafe new) :
    (cleanupStaleMoving s isLive successor
        oldEnough).1.loadState =
      remainingState s isLive successor := by
  have hSwept := lineSafe_sweptState s isLive hSafe
  rw [sweep_eq, loadState_foldl_removeDir]
  unfold removedStore
  dsimp only
  split
  · exact loadState_saveState _
      (KeyMap.All.foldl_erase hSwept _)
  · rename_i hNone
    have hNil :
        abandonedChannels (sweptState s isLive successor) =
          [] := by
      simpa using hNone
    rw [loadState_foldl_removeDir,
      loadState_movedStore s isLive hSafe, remainingState,
      hNil]
    rfl

theorem hasDir_movedStore
    (s : Store)
    (isLive : String → Bool)
    (successor : String → Option String)
    (n : String) :
    (movedStore s isLive successor).hasDir n ↔
      s.hasDir n := by
  have hMoved :
      ∀ (moved : List (String × String)) (t : Store),
        (moved.foldl
          (fun s p => moveRecords s p.1 p.2) t).hasDir n ↔
          t.hasDir n := by
    intro moved
    induction moved with
    | nil =>
        intro t
        exact Iff.rfl
    | cons p moved ih =>
        intro t
        rw [List.foldl_cons, ih, hasDir_moveRecords]
  unfold movedStore
  dsimp only
  rw [hMoved]
  split
  · exact hasDir_saveState _ _ _
  · exact Iff.rfl

/- A channel that keeps its entry keeps its directory. -/
theorem hasDir_sweep
    {s : Store}
    {isLive : String → Bool}
    {successor : String → Option String}
    {n : String}
    (oldEnough : String → Bool)
    (hThere : s.hasDir n)
    (hEntry :
      ((remainingState s isLive successor).get? n).isSome =
        true) :
    (cleanupStaleMoving s isLive successor
      oldEnough).1.hasDir n := by
  have hKept :
      n ∉ abandonedChannels
        (sweptState s isLive successor) := by
    intro hMem
    unfold remainingState at hEntry
    rw [get?_foldl_erase, if_pos hMem] at hEntry
    cases hEntry
  have hRemoved :
      (removedStore s isLive successor).hasDir n := by
    have hDir :
        ((abandonedChannels
          (sweptState s isLive successor)).foldl
          Store.removeDir
          (movedStore s isLive successor)).hasDir n := by
      rw [hasDir_foldl_removeDir, hasDir_movedStore]
      exact ⟨hKept, hThere⟩
    unfold removedStore
    dsimp only
    split
    · exact hDir
    · exact hDir
  rw [sweep_eq, hasDir_foldl_removeDir]
  refine ⟨?_, hRemoved⟩
  intro hOrphan
  unfold orphanDirs at hOrphan
  rw [List.mem_filter, hEntry] at hOrphan
  simp at hOrphan

end Groups
