import AgentWays.Groups.Store
import AgentWays.Groups.YamlSpec

/-
  What each channel operation does to the store.

  The state an operation saves is the state the next one
  loads as long as it is safe in its lines, and every state
  that is loaded is. So an operation is described by the
  entries it edits and the directories it makes or removes.

  Key definitions include:
    * `Groups.Store.hasDir`
    * `Groups.Store.members`

    * `Groups.Edits`, a step that changes one entry

  Main declarations:
    * `Groups.loadState_saveState`
    * `Groups.join_cases`
    * `Groups.add_cases`
    * `Groups.saveWithout_edits`
-/

------------------------------------------------------------
-- The Saved State
------------------------------------------------------------

namespace Groups

open RustText

theorem lineSafe_loadState
    (s : Store) :
    LineSafe s.loadState := by
  unfold Store.loadState
  split
  · exact lineSafe_parseGroupsYaml _
  · intro name entry hGet
    cases hGet

/- A safe state is what the next operation loads. -/
theorem loadState_saveState
    {state : GroupState}
    (s : Store)
    (hSafe : LineSafe state) :
    (s.saveState state).loadState = state :=
  parseGroupsYaml_serialize hSafe

theorem get?_mapEntries
    (edit : GroupEntry → GroupEntry)
    (state : GroupState)
    (name : String) :
    (mapEntries edit state).get? name =
      (state.get? name).map edit := by
  unfold mapEntries
  rw [KeyMap.get?_filterMap]
  cases state.get? name with
  | none => rfl
  | some entry => rfl

theorem all_mapEntries
    {P Q : String → GroupEntry → Prop}
    {state : GroupState}
    {edit : GroupEntry → GroupEntry}
    (hState : state.All P)
    (hEdit : ∀ name e, P name e → Q name (edit e)) :
    (mapEntries edit state).All Q := by
  intro name entry hGet
  rw [get?_mapEntries, Option.map_eq_some_iff] at hGet
  rcases hGet with ⟨old, hOld, hEq⟩
  rw [← hEq]
  exact hEdit name old (hState name old hOld)

theorem LineSafe.mapEntries
    {state : GroupState}
    {edit : GroupEntry → GroupEntry}
    (hState : LineSafe state)
    (hEdit : ∀ e, EntrySafe e → EntrySafe (edit e)) :
    LineSafe (mapEntries edit state) := by
  refine all_mapEntries hState ?_
  rintro name e ⟨hName, hEntry⟩
  exact ⟨hName, hEdit e hEntry⟩

/- Changing directories leaves the state as it was. -/
@[simp] theorem loadState_createDir
    (s : Store)
    (name : String) :
    (s.createDir name).loadState = s.loadState := by
  unfold Store.createDir
  split
  · rfl
  · rfl

@[simp] theorem loadState_removeDir
    (s : Store)
    (name : String) :
    (s.removeDir name).loadState = s.loadState := rfl

@[simp] theorem loadState_editDir
    (s : Store)
    (name : String)
    (edit : ChannelDir → ChannelDir) :
    (s.editDir name edit).loadState = s.loadState := by
  unfold Store.editDir
  split
  · rfl
  · rfl

@[simp] theorem loadState_removeRecord
    (s : Store)
    (name member kind : String) :
    (s.removeRecord name member kind).loadState =
      s.loadState :=
  loadState_editDir s name _

theorem loadState_foldl
    {α : Type}
    {f : Store → α → Store}
    (hKeep : ∀ s a, (f s a).loadState = s.loadState)
    (items : List α)
    (s : Store) :
    (items.foldl f s).loadState = s.loadState := by
  induction items generalizing s with
  | nil => rfl
  | cons a items ih => rw [List.foldl_cons, ih, hKeep]

@[simp] theorem loadState_moveRecords
    (s : Store)
    (old new : String) :
    (moveRecords s old new).loadState = s.loadState :=
  loadState_foldl (fun s name => loadState_editDir s name _)
    _ s

theorem loadState_foldl_moveRecords
    (moved : List (String × String))
    (s : Store) :
    (moved.foldl
        (fun s p => moveRecords s p.1 p.2) s).loadState =
      s.loadState := by
  apply loadState_foldl
  intro s p
  exact loadState_moveRecords s p.1 p.2

theorem loadState_foldl_removeDir
    (names : List String)
    (s : Store) :
    (names.foldl Store.removeDir s).loadState =
      s.loadState := by
  apply loadState_foldl
  intro s name
  exact loadState_removeDir s name

end Groups

------------------------------------------------------------
-- Directories And Members
------------------------------------------------------------

namespace Groups

/- The channel's directory is there. -/
def Store.hasDir
    (s : Store)
    (name : String) : Prop :=
  (s.dirs.get? name).isSome = true

/- The members of a channel, none if it has no entry. -/
def Store.members
    (s : Store)
    (name : String) : List String :=
  ((s.loadState.get? name).map GroupEntry.members).getD []

@[simp] theorem hasDir_saveState
    (s : Store)
    (state : GroupState)
    (name : String) :
    (s.saveState state).hasDir name ↔ s.hasDir name :=
  Iff.rfl

theorem hasDir_createDir
    (s : Store)
    (name key : String) :
    (s.createDir name).hasDir key ↔
      key = name ∨ s.hasDir key := by
  unfold Store.createDir
  split
  · rename_i hThere
    constructor
    · exact Or.inr
    · rintro (rfl | hKey)
      · exact hThere
      · exact hKey
  · unfold Store.hasDir
    rw [KeyMap.get?_insert]
    split
    · rename_i hKey
      simp [hKey]
    · rename_i hKey
      simp [hKey]

theorem hasDir_removeDir
    (s : Store)
    (name key : String) :
    (s.removeDir name).hasDir key ↔
      key ≠ name ∧ s.hasDir key := by
  unfold Store.hasDir Store.removeDir
  rw [KeyMap.get?_erase]
  split
  · rename_i hKey
    simp [hKey]
  · rename_i hKey
    simp [hKey]

@[simp] theorem hasDir_editDir
    (s : Store)
    (name key : String)
    (edit : ChannelDir → ChannelDir) :
    (s.editDir name edit).hasDir key ↔ s.hasDir key := by
  unfold Store.editDir
  split
  · rename_i dir hDir
    unfold Store.hasDir
    rw [KeyMap.get?_insert]
    split
    · rename_i hKey
      simp [hKey, hDir]
    · exact Iff.rfl
  · exact Iff.rfl

@[simp] theorem hasDir_removeRecord
    (s : Store)
    (name member kind key : String) :
    (s.removeRecord name member kind).hasDir key ↔
      s.hasDir key :=
  hasDir_editDir s name key _

@[simp] theorem hasDir_moveRecords
    (s : Store)
    (old new key : String) :
    (moveRecords s old new).hasDir key ↔ s.hasDir key := by
  unfold moveRecords
  induction channelDirs s generalizing s with
  | nil => exact Iff.rfl
  | cons name names ih =>
      rw [List.foldl_cons, ih, hasDir_editDir]

/- Directories removed one after another. -/
theorem hasDir_foldl_removeDir
    (names : List String)
    (s : Store)
    (key : String) :
    (names.foldl Store.removeDir s).hasDir key ↔
      key ∉ names ∧ s.hasDir key := by
  induction names generalizing s with
  | nil => simp
  | cons name names ih =>
      rw [List.foldl_cons, ih, hasDir_removeDir]
      simp only [List.mem_cons, not_or]
      constructor
      · rintro ⟨hOut, hNe, hDir⟩
        exact ⟨⟨hNe, hOut⟩, hDir⟩
      · rintro ⟨⟨hNe, hOut⟩, hDir⟩
        exact ⟨hOut, hNe, hDir⟩

end Groups

------------------------------------------------------------
-- The Cases Of Each Operation
------------------------------------------------------------

namespace Groups

theorem refuseLeftover_ok
    {s : Store}
    {name : String}
    (hOk : refuseLeftover s name = .ok ()) :
    s.signals name = [] := by
  unfold refuseLeftover at hOk
  dsimp only at hOk
  split at hOk
  · rename_i hNone
    exact List.length_eq_zero_iff.mp hNone
  · cases hOk

/- The state after a join that was done. -/
def joined
    (s : Store)
    (me name : String)
    (pin : Bool) : Store :=
  ((s.saveState
      (s.loadState.insert name
        (joinEntry me pin
          ((s.loadState.get? name).getD
            GroupEntry.default)))).createDir
    name).removeRecord name me inviteKind

theorem join_cases
    (s : Store)
    (me name : String)
    (pin : Bool) :
    (∃ e, join s me name pin = (s, .error e)) ∨
      (validateGroupName name = .ok () ∧
        ((s.loadState.get? name).isSome = true ∨
          s.signals name = []) ∧
        join s me name pin =
          (joined s me name pin, .ok ())) := by
  unfold join
  cases hValid : validateGroupName name with
  | error e => exact Or.inl ⟨e, rfl⟩
  | ok u =>
      dsimp only
      by_cases hThere :
          (s.loadState.get? name).isSome = true
      · rw [if_pos hThere]
        exact Or.inr ⟨rfl, Or.inl hThere, rfl⟩
      · rw [if_neg hThere]
        cases hLeft : refuseLeftover s name with
        | error e => exact Or.inl ⟨e, rfl⟩
        | ok u =>
            exact Or.inr
              ⟨rfl, Or.inr (refuseLeftover_ok hLeft), rfl⟩

/- The state after a create that was done. -/
def created
    (s : Store)
    (name : String)
    (description : Option String) : Store :=
  (s.saveState
    (s.loadState.insert name
      { pinned := true
        members := []
        description := description })).createDir name

theorem create_cases
    (s : Store)
    (name : String)
    (description : Option String) :
    (∃ e, create s name description = (s, .error e)) ∨
      ∃ text,
        validateGroupName name = .ok () ∧
        createDescription description = .ok text ∧
        s.loadState.get? name = none ∧
        s.signals name = [] ∧
        create s name description =
          (created s name text, .ok ()) := by
  unfold create
  cases hValid : validateGroupName name with
  | error e => exact Or.inl ⟨e, rfl⟩
  | ok u =>
      cases hText : createDescription description with
      | error e => exact Or.inl ⟨e, rfl⟩
      | ok text =>
          dsimp only
          by_cases hThere :
              (s.loadState.get? name).isSome = true
          · rw [if_pos hThere]
            exact Or.inl ⟨_, rfl⟩
          · rw [if_neg hThere]
            cases hLeft : refuseLeftover s name with
            | error e => exact Or.inl ⟨e, rfl⟩
            | ok u =>
                refine Or.inr ⟨text, rfl, rfl, ?_,
                  refuseLeftover_ok hLeft, rfl⟩
                simpa using hThere

/- The state after an add that was done. -/
def added
    (s : Store)
    (name member : String) : Store :=
  let entry :=
    (s.loadState.get? name).getD GroupEntry.default
  ((s.createDir name).saveState
    (s.loadState.insert name
      { entry with
        members := entry.members ++ [member] })).removeRecord
    name member inviteKind

/-
  An add that is refused by its caller's own step has made
  the directory by then.
-/
theorem add_cases
    (s : Store)
    (name member : String)
    (admitted : Except String Unit) :
    (∃ e, add s name member admitted = (s, .error e)) ∨
      (validateGroupName name = .ok () ∧
        validateMemberId member = .ok () ∧
        ((s.loadState.get? name).isSome = true ∨
          s.hasDir name) ∧
        member ∉ s.members name ∧
        ((∃ e, add s name member admitted =
            (s.createDir name, .error e)) ∨
          add s name member admitted =
            (added s name member, .ok ()))) := by
  unfold add
  cases hValid : validateGroupName name with
  | error e => exact Or.inl ⟨_, rfl⟩
  | ok u =>
      cases hMember : validateMemberId member with
      | error e => exact Or.inl ⟨_, rfl⟩
      | ok u =>
          dsimp only
          by_cases hUnknown :
              (!(s.loadState.get? name).isSome &&
                !(s.dirs.get? name).isSome) = true
          · rw [if_pos hUnknown]
            exact Or.inl ⟨_, rfl⟩
          · rw [if_neg hUnknown]
            by_cases hAlready :
                (s.loadState.get? name).any
                  (fun e => e.members.contains member) = true
            · rw [if_pos hAlready]
              exact Or.inl ⟨_, rfl⟩
            · rw [if_neg hAlready]
              refine Or.inr ⟨rfl, rfl, ?_, ?_, ?_⟩
              · simp only [Bool.and_eq_true,
                  Bool.not_eq_true', not_and,
                  Bool.not_eq_false] at hUnknown
                by_cases hThere :
                    (s.loadState.get? name).isSome = true
                · exact Or.inl hThere
                · exact Or.inr (hUnknown (by simpa using hThere))
              · unfold Store.members
                cases hGet : s.loadState.get? name with
                | none => simp
                | some entry =>
                    rw [hGet] at hAlready
                    simpa using hAlready
              · cases admitted with
                | error e => exact Or.inl ⟨_, rfl⟩
                | ok u =>
                    right
                    unfold added
                    rfl

end Groups

------------------------------------------------------------
-- One Channel's Entry
------------------------------------------------------------

namespace Groups

/-
  A step that changes the entry of one channel alone and
  leaves every other channel its directory. A channel with
  an entry afterwards has its directory too, unless it had
  an entry without one.
-/
structure Edits
    (s s' : Store)
    (name : String)
    (entry : Option GroupEntry) : Prop where
  load :
    ∀ n, s'.loadState.get? n =
      if n = name then entry else s.loadState.get? n
  others : ∀ n, n ≠ name → s.hasDir n → s'.hasDir n
  own :
    entry.isSome = true →
      ((s.loadState.get? name).isSome = true →
        s.hasDir name) →
      s'.hasDir name

theorem Edits.members
    {s s' : Store}
    {name : String}
    {entry : Option GroupEntry}
    (hEdits : Edits s s' name entry)
    (n : String) :
    s'.members n =
      if n = name then
        (entry.map GroupEntry.members).getD []
      else s.members n := by
  unfold Store.members
  rw [hEdits.load n]
  split
  · rfl
  · rfl

/- The entry of an emptied, unpinned channel is removed. -/
def kept
    (entry : Option GroupEntry) : Option GroupEntry :=
  entry.filter (fun e => !isAbandoned e)

theorem kept_members
    (entry : Option GroupEntry) :
    ((kept entry).map GroupEntry.members).getD [] =
      (entry.map GroupEntry.members).getD [] := by
  unfold kept
  cases entry with
  | none => rfl
  | some e =>
      rw [Option.filter_some]
      split
      · rfl
      · rename_i hAbandoned
        simp only [isAbandoned, Bool.not_and, Bool.not_not,
          Bool.or_eq_true, Bool.not_eq_true', not_or,
          Bool.not_eq_false, Bool.not_eq_true,
          List.isEmpty_iff] at hAbandoned
        simp [hAbandoned.1]

theorem saveWithout_edits
    {s : Store}
    {state : GroupState}
    {name : String}
    (hSafe : LineSafe state)
    (hSame :
      ∀ n, n ≠ name →
        state.get? n = s.loadState.get? n)
    (hOwn : (state.get? name).isSome = true →
      (s.loadState.get? name).isSome = true) :
    Edits s (saveWithout s state name) name
      (kept (state.get? name)) := by
  unfold saveWithout
  by_cases hAbandoned :
      (state.get? name).any isAbandoned = true
  · rw [if_pos hAbandoned]
    have hKept : kept (state.get? name) = none := by
      unfold kept
      cases hGet : state.get? name with
      | none => rfl
      | some e =>
          rw [hGet] at hAbandoned
          simpa [Option.filter_some] using hAbandoned
    rw [hKept]
    refine ⟨?_, ?_, by simp⟩
    · intro n
      rw [loadState_saveState _ (KeyMap.All.erase hSafe name),
        KeyMap.get?_erase]
      split
      · rfl
      · rename_i hNe
        exact hSame n hNe
    · intro n hNe hThere
      rw [hasDir_saveState, hasDir_removeDir]
      exact ⟨hNe, hThere⟩
  · rw [if_neg hAbandoned]
    have hKept :
        kept (state.get? name) = state.get? name := by
      unfold kept
      cases hGet : state.get? name with
      | none => rfl
      | some e =>
          rw [hGet] at hAbandoned
          simpa [Option.filter_some] using hAbandoned
    rw [hKept]
    refine ⟨?_, ?_, fun hEntry hDir => hDir (hOwn hEntry)⟩
    · intro n
      rw [loadState_saveState _ hSafe]
      split
      · rename_i hKey
        rw [hKey]
      · rename_i hNe
        exact hSame n hNe
    · intro n hNe hThere
      exact hThere

theorem saveState_insert_edits
    {s t : Store}
    {name : String}
    {entry : GroupEntry}
    (hName : NameSafe name)
    (hEntry : EntrySafe entry)
    (hLoad :
      t.loadState =
        (s.saveState
          (s.loadState.insert name entry)).loadState)
    (hDirs : ∀ n, s.hasDir n → t.hasDir n)
    (hDir :
      ((s.loadState.get? name).isSome = true →
        s.hasDir name) → t.hasDir name) :
    Edits s t name (some entry) := by
  have hSafe :=
    KeyMap.All.insert (lineSafe_loadState s)
      (And.intro hName hEntry)
  refine ⟨?_, fun n _ => hDirs n, fun _ => hDir⟩
  intro n
  rw [hLoad, loadState_saveState s hSafe,
    KeyMap.get?_insert]

theorem entrySafe_getD
    (s : Store)
    (name : String) :
    EntrySafe
      ((s.loadState.get? name).getD GroupEntry.default) := by
  cases hGet : s.loadState.get? name with
  | none =>
      exact ⟨by simp [GroupEntry.default],
        by simp [GroupEntry.default]⟩
  | some entry =>
      exact (lineSafe_loadState s name entry hGet).2

/- An entry with one more safe member. -/
theorem EntrySafe.append
    {entry : GroupEntry}
    {member : String}
    {members : List String}
    (hEntry : EntrySafe entry)
    (hMember : MemberSafe member)
    (pinned : Bool)
    (hMembers :
      ∀ m ∈ members, m ∈ entry.members ∨ m = member) :
    EntrySafe
      { pinned := pinned
        members := members
        description := entry.description } := by
  refine ⟨?_, hEntry.description⟩
  intro m hMem
  rcases hMembers m hMem with hOld | hNew
  · exact hEntry.members m hOld
  · rw [hNew]
    exact hMember

theorem joined_edits
    {me name : String}
    (s : Store)
    (pin : Bool)
    (hName : NameSafe name)
    (hMe : MemberSafe me) :
    Edits s (joined s me name pin) name
      (some
        (joinEntry me pin
          ((s.loadState.get? name).getD
            GroupEntry.default))) := by
  unfold joined
  apply saveState_insert_edits hName
  · unfold joinEntry
    apply (entrySafe_getD s name).append hMe
    intro m hMem
    split at hMem
    · exact Or.inl hMem
    · rcases List.mem_append.mp hMem with hOld | hNew
      · exact Or.inl hOld
      · exact Or.inr (List.mem_singleton.mp hNew)
  · simp
  · intro n hThere
    rw [hasDir_removeRecord, hasDir_createDir]
    exact Or.inr hThere
  · intro _
    rw [hasDir_removeRecord, hasDir_createDir]
    exact Or.inl rfl

theorem created_edits
    {name : String}
    {description : Option String}
    (s : Store)
    (hName : NameSafe name)
    (hText : ∀ d ∈ description, DescriptionSafe d) :
    Edits s (created s name description) name
      (some
        { pinned := true
          members := []
          description := description }) := by
  unfold created
  apply saveState_insert_edits hName ⟨by simp, hText⟩
  · simp
  · intro n hThere
    rw [hasDir_createDir]
    exact Or.inr hThere
  · intro _
    rw [hasDir_createDir]
    exact Or.inl rfl

theorem added_edits
    {name member : String}
    (s : Store)
    (hName : NameSafe name)
    (hMember : MemberSafe member) :
    Edits s (added s name member) name
      (some
        { (s.loadState.get? name).getD
            GroupEntry.default with
          members :=
            ((s.loadState.get? name).getD
              GroupEntry.default).members ++ [member] }) := by
  unfold added
  apply saveState_insert_edits hName
  · apply (entrySafe_getD s name).append hMember
    intro m hMem
    rcases List.mem_append.mp hMem with hOld | hNew
    · exact Or.inl hOld
    · exact Or.inr (List.mem_singleton.mp hNew)
  · dsimp only
    rw [loadState_removeRecord]
    rfl
  · intro n hThere
    rw [hasDir_removeRecord, hasDir_saveState,
      hasDir_createDir]
    exact Or.inr hThere
  · intro _
    rw [hasDir_removeRecord, hasDir_saveState,
      hasDir_createDir]
    exact Or.inl rfl

end Groups

------------------------------------------------------------
-- Edits That Make No Channel
------------------------------------------------------------

namespace Groups

theorem get?_editEntry
    (state : GroupState)
    (name n : String)
    (edit : GroupEntry → GroupEntry) :
    (editEntry state name edit).get? n =
      if n = name then (state.get? name).map edit
      else state.get? n := by
  unfold editEntry
  cases hGet : state.get? name with
  | none =>
      by_cases hKey : n = name
      · rw [if_pos hKey, hKey]
        exact hGet
      · rw [if_neg hKey]
  | some entry =>
      dsimp only
      rw [KeyMap.get?_insert]
      rfl

theorem LineSafe.editEntry
    {state : GroupState}
    {edit : GroupEntry → GroupEntry}
    (hState : LineSafe state)
    (name : String)
    (hEdit : ∀ e, EntrySafe e → EntrySafe (edit e)) :
    LineSafe (editEntry state name edit) := by
  intro n entry hGet
  rw [get?_editEntry] at hGet
  split at hGet
  · rename_i hKey
    rw [Option.map_eq_some_iff] at hGet
    rcases hGet with ⟨old, hOld, hEq⟩
    rcases hState name old hOld with ⟨hName, hEntry⟩
    rw [hKey, ← hEq]
    exact ⟨hName, hEdit old hEntry⟩
  · exact hState n entry hGet

theorem EntrySafe.dropMember
    {entry : GroupEntry}
    (hEntry : EntrySafe entry)
    (member : String) :
    EntrySafe (dropMember member entry) := by
  refine ⟨?_, hEntry.description⟩
  intro m hMem
  exact hEntry.members m (List.mem_of_mem_filter hMem)

theorem EntrySafe.pinned
    {entry : GroupEntry}
    (hEntry : EntrySafe entry)
    (pinned : Bool) :
    EntrySafe { entry with pinned := pinned } :=
  ⟨hEntry.members, hEntry.description⟩

/-
  An entry changed in place and kept unless it is empty and
  unpinned by then.
-/
theorem saveWithout_editEntry_edits
    {edit : GroupEntry → GroupEntry}
    (s : Store)
    (name : String)
    (hEdit : ∀ e, EntrySafe e → EntrySafe (edit e)) :
    Edits s
      (saveWithout s (editEntry s.loadState name edit) name)
      name (kept ((s.loadState.get? name).map edit)) := by
  have hOwn :
      (editEntry s.loadState name edit).get? name =
        (s.loadState.get? name).map edit := by
    rw [get?_editEntry, if_pos rfl]
  rw [← hOwn]
  apply saveWithout_edits
  · exact (lineSafe_loadState s).editEntry name hEdit
  · intro n hNe
    rw [get?_editEntry, if_neg hNe]
  · rw [hOwn, Option.isSome_map]
    exact id

/- Removing a record first changes nothing of this. -/
theorem Edits.of_removeRecord
    {s s' : Store}
    {name member kind key : String}
    {entry : Option GroupEntry}
    (hEdits :
      Edits (s.removeRecord key member kind) s' name entry) :
    Edits s s' name entry := by
  refine ⟨?_, ?_, ?_⟩
  · intro n
    rw [hEdits.load n, loadState_removeRecord]
  · intro n hNe hThere
    exact hEdits.others n hNe
      ((hasDir_removeRecord s key member kind n).mpr hThere)
  · intro hEntry hDir
    apply hEdits.own hEntry
    rw [loadState_removeRecord, hasDir_removeRecord]
    exact hDir

theorem leave_cases
    (s : Store)
    (me name : String) :
    (∃ e, leave s me name = (s, .error e)) ∨
      ∃ s',
        leave s me name = (s', .ok ()) ∧
        Edits s s' name
          (kept
            ((s.loadState.get? name).map (dropMember me))) := by
  unfold leave
  cases hValid : validateGroupName name with
  | error e => exact Or.inl ⟨e, rfl⟩
  | ok u =>
      refine Or.inr ⟨_, rfl, ?_⟩
      apply Edits.of_removeRecord
      rw [← loadState_removeRecord s name me briefKind]
      apply saveWithout_editEntry_edits
      intro e hEntry
      exact hEntry.dropMember me

theorem unpin_cases
    (s : Store)
    (name : String) :
    unpin s name = s ∨
      Edits s (unpin s name) name
        (kept
          ((s.loadState.get? name).map
            (fun e => { e with pinned := false }))) := by
  unfold unpin
  cases hValid : validateGroupName name with
  | error e => exact Or.inl rfl
  | ok u =>
      right
      apply saveWithout_editEntry_edits
      intro e hEntry
      exact hEntry.pinned false

theorem insert_eq_editEntry
    {state : GroupState}
    {name : String}
    {entry : GroupEntry}
    (edit : GroupEntry → GroupEntry)
    (hGet : state.get? name = some entry) :
    state.insert name (edit entry) =
      editEntry state name edit := by
  unfold editEntry
  rw [hGet]

theorem kick_cases
    (s : Store)
    (me name member : String) :
    (∃ e, kick s me name member = (s, .error e)) ∨
      ∃ s',
        kick s me name member = (s', .ok ()) ∧
        (isAgentMember me = true →
          isAgentMember member = true) ∧
        Edits s s' name
          (kept
            ((s.loadState.get? name).map
              (dropMember member))) := by
  unfold kick
  by_cases hPower :
      (isAgentMember me && !isAgentMember member) = true
  · rw [if_pos hPower]
    exact Or.inl ⟨_, rfl⟩
  · rw [if_neg hPower]
    cases hValid : validateGroupName name with
    | error e => exact Or.inl ⟨e, rfl⟩
    | ok u =>
        dsimp only
        cases hGet : s.loadState.get? name with
        | none => exact Or.inl ⟨_, rfl⟩
        | some entry =>
            dsimp only
            split
            · exact Or.inl ⟨_, rfl⟩
            · refine Or.inr ⟨_, rfl, ?_, ?_⟩
              · intro hAgent
                rw [hAgent] at hPower
                simpa using hPower
              · rw [insert_eq_editEntry _ hGet, ← hGet]
                apply Edits.of_removeRecord
                rw [← loadState_removeRecord s name member
                  briefKind]
                apply saveWithout_editEntry_edits
                intro e hEntry
                exact hEntry.dropMember member

/- An entry that is there, changed and kept. -/
theorem saveState_editEntry_edits
    {s : Store}
    {name : String}
    {entry : GroupEntry}
    {edited : GroupEntry}
    (hGet : s.loadState.get? name = some entry)
    (hEdited : EntrySafe edited) :
    Edits s
      (s.saveState (s.loadState.insert name edited)) name
      (some edited) := by
  apply saveState_insert_edits
    (lineSafe_loadState s name entry hGet).1 hEdited
  · rfl
  · intro n hThere
    exact hThere
  · intro hDir
    apply hDir
    rw [hGet]
    rfl

theorem pin_cases
    (s : Store)
    (name : String) :
    pin s name = s ∨
      ∃ entry,
        s.loadState.get? name = some entry ∧
        Edits s (pin s name) name
          (some { entry with pinned := true }) := by
  unfold pin
  dsimp only
  cases hGet : s.loadState.get? name with
  | none => exact Or.inl rfl
  | some entry =>
      have hEntry :=
        (lineSafe_loadState s name entry hGet).2
      exact Or.inr ⟨entry, rfl,
        saveState_editEntry_edits hGet (hEntry.pinned true)⟩

theorem normalizeDescription_safe
    {text : String}
    {normalized : Option String}
    (hText : normalizeDescription text = .ok normalized) :
    ∀ d ∈ normalized, DescriptionSafe d := by
  intro d hMem
  rw [Option.mem_def] at hMem
  rw [hMem] at hText
  exact descriptionSafe_of_normalize hText

theorem createDescription_safe
    {description text : Option String}
    (hText : createDescription description = .ok text) :
    ∀ d ∈ text, DescriptionSafe d := by
  unfold createDescription at hText
  split at hText
  · exact normalizeDescription_safe hText
  · simp only [Except.ok.injEq] at hText
    rw [← hText]
    simp

theorem setDescription_cases
    (s : Store)
    (name text : String) :
    (∃ e, setDescription s name text = (s, .error e)) ∨
      ∃ s' entry normalized,
        setDescription s name text = (s', .ok ()) ∧
        s.loadState.get? name = some entry ∧
        Edits s s' name
          (some { entry with description := normalized }) := by
  unfold setDescription
  cases hText : normalizeDescription text with
  | error e => exact Or.inl ⟨e, rfl⟩
  | ok normalized =>
      dsimp only
      cases hGet : s.loadState.get? name with
      | none => exact Or.inl ⟨_, rfl⟩
      | some entry =>
          have hEntry :=
            (lineSafe_loadState s name entry hGet).2
          refine Or.inr
            ⟨_, entry, normalized, rfl, rfl, ?_⟩
          apply saveState_editEntry_edits hGet
          exact ⟨hEntry.members,
            normalizeDescription_safe hText⟩

theorem dissolve_cases
    (s : Store)
    (name : String) :
    (∃ e, dissolve s name = (s, .error e)) ∨
      ∃ s' members,
        dissolve s name = (s', .ok members) ∧
        Edits s s' name none := by
  unfold dissolve
  cases hValid : validateGroupName name with
  | error e => exact Or.inl ⟨e, rfl⟩
  | ok u =>
      refine Or.inr ⟨_, _, rfl, ?_, ?_, by simp⟩
      · intro n
        rw [loadState_removeDir,
          loadState_saveState s
            (KeyMap.All.erase (lineSafe_loadState s) name),
          KeyMap.get?_erase]
      · intro n hNe hThere
        rw [hasDir_removeDir, hasDir_saveState]
        exact ⟨hNe, hThere⟩

/- A record makes its directory and changes no entry. -/
theorem writeRecord_cases
    (s : Store)
    (me name member kind : String)
    (now : Nat) :
    (∃ e, writeRecord s me name member kind now =
        (s, .error e)) ∨
      ∃ s',
        writeRecord s me name member kind now =
          (s', .ok ()) ∧
        s'.loadState = s.loadState ∧
        (∀ n, s'.hasDir n ↔ n = name ∨ s.hasDir n) := by
  unfold writeRecord
  cases hValid : validateGroupName name with
  | error e => exact Or.inl ⟨e, rfl⟩
  | ok u =>
      cases hMember : validateMemberId member with
      | error e => exact Or.inl ⟨e, rfl⟩
      | ok u =>
          refine Or.inr ⟨_, rfl, by simp, ?_⟩
          intro n
          rw [hasDir_editDir, hasDir_createDir]

end Groups
