import AgentWays.Groups.SweepSpec

/-
  What holds of the channel store through every run.

  Member lists have no duplicates, a channel is pinned or
  has a member, and it has its directory. The names and ids
  written to the state file must be safe in their lines:
  one that is not is read back as another, and then a
  channel can appear that was never made.

  Key definitions include:
    * `Groups.ChannelsOk`
    * `Groups.TurnOk`
    * `Groups.Op.Safe`

  Main declarations:
    * `Groups.Edits.wellKept`
    * `Groups.step_ok`
    * `Groups.channels_run`
-/

------------------------------------------------------------
-- The Invariant
------------------------------------------------------------

namespace Groups

open RustText

/- What every state of the store should have. -/
structure ChannelsOk (s : Store) : Prop where
  nodup :
    ∀ name entry, s.loadState.get? name = some entry →
      entry.members.Nodup
  needed :
    ∀ name entry, s.loadState.get? name = some entry →
      entry.pinned = true ∨ entry.members ≠ []
  dir :
    ∀ name entry, s.loadState.get? name = some entry →
      s.hasDir name

/- Operations that touch no membership but their own. -/
def Action.ownOnly : Action → Bool
| .join _ _ => true
| .create _ _ => true
| .leave _ => true
| .pin _ => true
| .unpin _ => true
| .setDescription _ _ => true
| .invite _ _ _ => true
| .brief _ _ _ => true
| .add _ _ _ => false
| .kick _ _ => false
| .renameMember _ _ => false
| .dissolve _ => false
| .sweep _ _ _ => false

/- Operations that remove another member. -/
def Action.isKick : Action → Bool
| .kick _ _ => true
| _ => false

/- What every operation should do. -/
structure TurnOk
    (t : StepMachine.Turn Store Op Reply) : Prop where
  refused :
    ∀ e, t.output = .error e →
      t.after.loadState = t.before.loadState ∧
        t.after.dirs = t.before.dirs
  kick :
    ∀ name member, t.input.action = .kick name member →
      isAgentMember t.input.me = true →
      ∀ channel human, isAgentMember human = false →
        human ∈ t.before.members channel →
          human ∈ t.after.members channel
  others :
    t.input.action.ownOnly = true →
      ∀ channel member, member ≠ t.input.me →
        (member ∈ t.after.members channel ↔
          member ∈ t.before.members channel)

/- A name that reads back as itself, once it is valid. -/
def NameText
    (name : String) : Prop :=
  startsBare name = true ∧ '\n' ∉ name.toList

/- An id that reads back as itself, once it is not empty. -/
def MemberText
    (member : String) : Prop :=
  endsBare member = true ∧ '\n' ∉ member.toList

/-
  What an operation writes to the state file is read back
  as it was written.
-/
def Op.Safe
    (op : Op) : Prop :=
  match op.action with
  | .join name _ => NameText name ∧ MemberSafe op.me
  | .create name _ => NameText name
  | .add name member _ => NameText name ∧ MemberText member
  | .renameMember _ new => MemberSafe new
  | .sweep _ successor _ =>
      ∀ sid new, successor sid = some new → MemberSafe new
  | _ => True

/- The invariant of runs: the names are valid too. -/
structure WellKept (s : Store) : Prop extends
    ChannelsOk s where
  valid :
    ∀ name entry, s.loadState.get? name = some entry →
      validateGroupName name = .ok ()

theorem WellKept.dir_of_isSome
    {s : Store}
    (hKept : WellKept s)
    (name : String)
    (hThere : (s.loadState.get? name).isSome = true) :
    s.hasDir name := by
  rcases Option.isSome_iff_exists.mp hThere with
    ⟨entry, hGet⟩
  exact hKept.dir name entry hGet

/- What an entry needs to be kept. -/
structure EntryOk (entry : GroupEntry) : Prop where
  nodup : entry.members.Nodup
  needed : entry.pinned = true ∨ entry.members ≠ []

theorem WellKept.entryOk
    {s : Store}
    {name : String}
    {entry : GroupEntry}
    (hKept : WellKept s)
    (hGet : s.loadState.get? name = some entry) :
    EntryOk entry :=
  ⟨hKept.nodup name entry hGet,
    hKept.needed name entry hGet⟩

/- Changing one entry for a good one keeps the invariant. -/
theorem Edits.wellKept
    {s s' : Store}
    {name : String}
    {entry : Option GroupEntry}
    (hEdits : Edits s s' name entry)
    (hKept : WellKept s)
    (hEntry :
      ∀ e ∈ entry,
        EntryOk e ∧ validateGroupName name = .ok ()) :
    WellKept s' := by
  have hCases :
      ∀ n e, s'.loadState.get? n = some e →
        (n = name ∧ e ∈ entry) ∨
          (n ≠ name ∧ s.loadState.get? n = some e) := by
    intro n e hGet
    rw [hEdits.load n] at hGet
    split at hGet
    · rename_i hKey
      exact Or.inl ⟨hKey, hGet⟩
    · rename_i hKey
      exact Or.inr ⟨hKey, hGet⟩
  refine ⟨⟨?_, ?_, ?_⟩, ?_⟩
  · intro n e hGet
    rcases hCases n e hGet with ⟨-, hNew⟩ | ⟨-, hOld⟩
    · exact (hEntry e hNew).1.nodup
    · exact hKept.nodup n e hOld
  · intro n e hGet
    rcases hCases n e hGet with ⟨-, hNew⟩ | ⟨-, hOld⟩
    · exact (hEntry e hNew).1.needed
    · exact hKept.needed n e hOld
  · intro n e hGet
    rcases hCases n e hGet with ⟨rfl, hNew⟩ | ⟨hNe, hOld⟩
    · exact hEdits.own
        (Option.isSome_iff_exists.mpr ⟨e, hNew⟩)
        (hKept.dir_of_isSome n)
    · exact hEdits.others n hNe (hKept.dir n e hOld)
  · intro n e hGet
    rcases hCases n e hGet with ⟨rfl, hNew⟩ | ⟨-, hOld⟩
    · exact (hEntry e hNew).2
    · exact hKept.valid n e hOld

/- The same entries with no directory lost. -/
theorem WellKept.of_same
    {s s' : Store}
    (hKept : WellKept s)
    (hLoad : s'.loadState = s.loadState)
    (hDirs : ∀ n, s.hasDir n → s'.hasDir n) :
    WellKept s' := by
  refine ⟨⟨?_, ?_, ?_⟩, ?_⟩
  · rw [hLoad]
    exact hKept.nodup
  · rw [hLoad]
    exact hKept.needed
  · intro n e hGet
    rw [hLoad] at hGet
    exact hDirs n (hKept.dir n e hGet)
  · rw [hLoad]
    exact hKept.valid

end Groups

------------------------------------------------------------
-- Entries
------------------------------------------------------------

namespace Groups

theorem nodup_getD
    {s : Store}
    (hKept : WellKept s)
    (name : String) :
    ((s.loadState.get? name).getD
      GroupEntry.default).members.Nodup := by
  cases hGet : s.loadState.get? name with
  | none => exact List.nodup_nil
  | some entry => exact hKept.nodup name entry hGet

theorem nodup_append_member
    {members : List String}
    {member : String}
    (hNodup : members.Nodup)
    (hOut : member ∉ members) :
    (members ++ [member]).Nodup := by
  rw [← List.concat_eq_append]
  exact hNodup.concat hOut

theorem joinEntry_ok
    {entry : GroupEntry}
    (me : String)
    (pin : Bool)
    (hNodup : entry.members.Nodup) :
    EntryOk (joinEntry me pin entry) := by
  have hMembers :
      (joinEntry me pin entry).members =
        if entry.members.contains me then entry.members
        else entry.members ++ [me] := rfl
  by_cases hIn : me ∈ entry.members
  · rw [if_pos (by simpa using hIn)] at hMembers
    refine ⟨?_, Or.inr ?_⟩
    · rw [hMembers]
      exact hNodup
    · rw [hMembers]
      intro hNil
      rw [hNil] at hIn
      cases hIn
  · rw [if_neg (by simpa using hIn)] at hMembers
    refine ⟨?_, Or.inr ?_⟩
    · rw [hMembers]
      exact nodup_append_member hNodup hIn
    · rw [hMembers]
      simp

theorem addedEntry_ok
    {entry : GroupEntry}
    {member : String}
    (hNodup : entry.members.Nodup)
    (hOut : member ∉ entry.members) :
    EntryOk
      { entry with members := entry.members ++ [member] } :=
  ⟨nodup_append_member hNodup hOut, Or.inr (by simp)⟩

theorem needed_of_not_abandoned
    {entry : GroupEntry}
    (hHere : isAbandoned entry = false) :
    entry.pinned = true ∨ entry.members ≠ [] := by
  unfold isAbandoned at hHere
  rw [Bool.and_eq_false_iff] at hHere
  rcases hHere with hSome | hPinned
  · right
    intro hNil
    rw [hNil] at hSome
    cases hSome
  · left
    simpa using hPinned

/- An entry changed in place, and kept only if needed. -/
theorem kept_ok
    {s : Store}
    {name : String}
    {edit : GroupEntry → GroupEntry}
    (hKept : WellKept s)
    (hEdit :
      ∀ e, e.members.Nodup → (edit e).members.Nodup) :
    ∀ e ∈ kept ((s.loadState.get? name).map edit),
      EntryOk e ∧ validateGroupName name = .ok () := by
  intro e hMem
  unfold kept at hMem
  rw [Option.mem_def, Option.filter_eq_some_iff,
    Option.map_eq_some_iff] at hMem
  rcases hMem with ⟨⟨old, hGet, hEq⟩, hHere⟩
  have hNodup := hKept.nodup name old hGet
  refine ⟨⟨?_, ?_⟩, hKept.valid name old hGet⟩
  · rw [← hEq]
    exact hEdit old hNodup
  · apply needed_of_not_abandoned
    simpa using hHere

theorem renameEntry_ok
    {entry : GroupEntry}
    (old new : String)
    (hEntry : EntryOk entry) :
    EntryOk (renameEntry old new entry) := by
  unfold renameEntry
  split
  · refine ⟨nodup_append_member (hEntry.nodup.filter _) ?_,
      Or.inr (by simp)⟩
    simp
  · exact hEntry

theorem nodup_sweepEntry
    {entry : GroupEntry}
    (moved : List (String × String))
    (dropped : List String)
    (hEntry : EntryOk entry) :
    (sweepEntry moved dropped entry).members.Nodup := by
  have hRenamed :
      EntryOk
        (moved.foldl
          (fun e p => renameEntry p.1 p.2 e) entry) := by
    induction moved generalizing entry with
    | nil => exact hEntry
    | cons p moved ih =>
        apply ih
        exact renameEntry_ok p.1 p.2 hEntry
  exact hRenamed.nodup.filter _

end Groups

------------------------------------------------------------
-- What A Step Keeps
------------------------------------------------------------

namespace Groups

/- A change of one entry that the invariant allows. -/
structure GoodEdit
    (s s' : Store)
    (name : String)
    (entry : Option GroupEntry) : Prop where
  edits : Edits s s' name entry
  entry :
    ∀ e ∈ entry,
      EntryOk e ∧ validateGroupName name = .ok ()

theorem nameSafe_of_text
    {name : String}
    (hValid : validateGroupName name = .ok ())
    (hText : NameText name) :
    NameSafe name :=
  (nameSafe_iff_of_validate hValid).mpr hText

theorem joined_good
    {s : Store}
    {me name : String}
    (pin : Bool)
    (hKept : WellKept s)
    (hValid : validateGroupName name = .ok ())
    (hName : NameText name)
    (hMe : MemberSafe me) :
    GoodEdit s (joined s me name pin) name
      (some
        (joinEntry me pin
          ((s.loadState.get? name).getD
            GroupEntry.default))) := by
  refine ⟨joined_edits s pin
    (nameSafe_of_text hValid hName) hMe, ?_⟩
  intro e hMem
  rw [Option.mem_some_iff] at hMem
  rw [← hMem]
  exact ⟨joinEntry_ok me pin (nodup_getD hKept name), hValid⟩

theorem created_good
    {s : Store}
    {name : String}
    {text : Option String}
    (hValid : validateGroupName name = .ok ())
    (hName : NameText name)
    (hText : ∀ d ∈ text, DescriptionSafe d) :
    GoodEdit s (created s name text) name
      (some
        { pinned := true
          members := []
          description := text }) := by
  refine ⟨created_edits s
    (nameSafe_of_text hValid hName) hText, ?_⟩
  intro e hMem
  rw [Option.mem_some_iff] at hMem
  rw [← hMem]
  exact ⟨⟨List.nodup_nil, Or.inl rfl⟩, hValid⟩

theorem members_getD
    (s : Store)
    (name : String) :
    ((s.loadState.get? name).getD
        GroupEntry.default).members = s.members name := by
  unfold Store.members
  cases s.loadState.get? name with
  | none => rfl
  | some entry => rfl

theorem added_good
    {s : Store}
    {name member : String}
    (hKept : WellKept s)
    (hValid : validateGroupName name = .ok ())
    (hName : NameText name)
    (hMember : MemberSafe member)
    (hOut : member ∉ s.members name) :
    GoodEdit s (added s name member) name
      (some
        { (s.loadState.get? name).getD
            GroupEntry.default with
          members :=
            ((s.loadState.get? name).getD
              GroupEntry.default).members ++ [member] }) := by
  refine ⟨added_edits s
    (nameSafe_of_text hValid hName) hMember, ?_⟩
  intro e hMem
  rw [Option.mem_some_iff] at hMem
  rw [← hMem]
  refine ⟨addedEntry_ok (nodup_getD hKept name) ?_, hValid⟩
  rw [members_getD]
  exact hOut

/- A rename keeps the entries good and the directories. -/
theorem renameMember_wellKept
    {s : Store}
    {new : String}
    (old : String)
    (hKept : WellKept s)
    (hNew : MemberSafe new) :
    WellKept (renameMember s old new) := by
  have hCases :
      ∀ n e,
        (renameMember s old new).loadState.get? n = some e →
        ∃ before, s.loadState.get? n = some before ∧
          renameEntry old new before = e := by
    intro n e hGet
    rw [loadState_renameMember s old hNew, get?_mapEntries,
      Option.map_eq_some_iff] at hGet
    exact hGet
  refine ⟨⟨?_, ?_, ?_⟩, ?_⟩
  · intro n e hGet
    rcases hCases n e hGet with ⟨before, hBefore, hEq⟩
    rw [← hEq]
    exact (renameEntry_ok old new
      (hKept.entryOk hBefore)).nodup
  · intro n e hGet
    rcases hCases n e hGet with ⟨before, hBefore, hEq⟩
    rw [← hEq]
    exact (renameEntry_ok old new
      (hKept.entryOk hBefore)).needed
  · intro n e hGet
    rcases hCases n e hGet with ⟨before, hBefore, -⟩
    rw [hasDir_renameMember]
    exact hKept.dir n before hBefore
  · intro n e hGet
    rcases hCases n e hGet with ⟨before, hBefore, -⟩
    exact hKept.valid n before hBefore

/- An entry the sweep leaves is not an abandoned one. -/
theorem remainingState_cases
    {s : Store}
    {isLive : String → Bool}
    {successor : String → Option String}
    {n : String}
    {e : GroupEntry}
    (hKept : WellKept s)
    (hGet :
      (remainingState s isLive successor).get? n = some e) :
    ∃ before,
      s.loadState.get? n = some before ∧
        sweepEntry
            (movedMembers isLive successor s.loadState)
            (droppedMembers isLive successor s.loadState)
            before = e ∧
        isAbandoned e = false := by
  unfold remainingState at hGet
  rw [get?_foldl_erase] at hGet
  split at hGet
  · cases hGet
  · rename_i hOut
    have hSwept := hGet
    unfold sweptState at hGet
    rw [get?_mapEntries, Option.map_eq_some_iff] at hGet
    rcases hGet with ⟨before, hBefore, hEq⟩
    refine ⟨before, hBefore, hEq, ?_⟩
    rw [Bool.eq_false_iff]
    intro hAbandoned
    apply hOut
    unfold abandonedChannels
    rw [List.mem_map]
    refine ⟨(n, e), ?_, rfl⟩
    rw [List.mem_filter]
    refine ⟨KeyMap.mem_entries.mpr hSwept, ?_⟩
    have hValid := hKept.valid n before hBefore
    simp [hAbandoned, hValid, Except.toBool]

theorem sweep_wellKept
    {s : Store}
    {successor : String → Option String}
    (isLive : String → Bool)
    (oldEnough : String → Bool)
    (hKept : WellKept s)
    (hSafe :
      ∀ sid new, successor sid = some new →
        MemberSafe new) :
    WellKept
      (cleanupStaleMoving s isLive successor
        oldEnough).1 := by
  have hLoad := loadState_sweep s isLive oldEnough hSafe
  refine ⟨⟨?_, ?_, ?_⟩, ?_⟩
  · intro n e hGet
    rw [hLoad] at hGet
    rcases remainingState_cases hKept hGet with
      ⟨before, hBefore, hEq, -⟩
    rw [← hEq]
    exact nodup_sweepEntry _ _ (hKept.entryOk hBefore)
  · intro n e hGet
    rw [hLoad] at hGet
    rcases remainingState_cases hKept hGet with
      ⟨before, hBefore, -, hHere⟩
    exact needed_of_not_abandoned hHere
  · intro n e hGet
    rw [hLoad] at hGet
    rcases remainingState_cases hKept hGet with
      ⟨before, hBefore, -⟩
    apply hasDir_sweep oldEnough (hKept.dir n before hBefore)
    rw [hGet]
    rfl
  · intro n e hGet
    rw [hLoad] at hGet
    rcases remainingState_cases hKept hGet with
      ⟨before, hBefore, -⟩
    exact hKept.valid n before hBefore

end Groups

------------------------------------------------------------
-- Every Step
------------------------------------------------------------

namespace Groups

/- The invariant afterwards, and what the turn should do. -/
structure StepOk
    (s : Store)
    (op : Op)
    (r : Store × Reply) : Prop where
  kept : WellKept r.1
  turn :
    TurnOk
      { before := s
        input := op
        after := r.1
        output := r.2 }

theorem stepOk_refused
    {s : Store}
    (op : Op)
    (e : String)
    (hKept : WellKept s) :
    StepOk s op (s, .error e) := by
  refine ⟨hKept, ?_, ?_, ?_⟩
  · intro _ _
    exact ⟨rfl, rfl⟩
  · intro _ _ _ _ _ _ _ hMem
    exact hMem
  · intro _ _ _ _
    exact Iff.rfl

/- A step that changes no entry and loses no directory. -/
theorem stepOk_same
    {s s' : Store}
    (op : Op)
    (reply : List String)
    (hKept : WellKept s)
    (hLoad : s'.loadState = s.loadState)
    (hDirs : ∀ n, s.hasDir n → s'.hasDir n) :
    StepOk s op (s', .ok reply) := by
  have hMembers : ∀ n, s'.members n = s.members n := by
    intro n
    unfold Store.members
    rw [hLoad]
  refine ⟨hKept.of_same hLoad hDirs, ?_, ?_, ?_⟩
  · intro e hError
    cases hError
  · intro _ _ _ _ channel _ _ hMem
    rw [hMembers channel]
    exact hMem
  · intro _ channel _ _
    rw [hMembers channel]

/- A change of one entry whose members stay but the own. -/
theorem stepOk_own
    {s s' : Store}
    {op : Op}
    {name : String}
    {entry : Option GroupEntry}
    (reply : List String)
    (hKept : WellKept s)
    (hGood : GoodEdit s s' name entry)
    (hNoKick : op.action.isKick = false)
    (hOthers :
      ∀ m, m ≠ op.me →
        (m ∈ (entry.map GroupEntry.members).getD [] ↔
          m ∈ s.members name)) :
    StepOk s op (s', .ok reply) := by
  refine ⟨hGood.edits.wellKept hKept hGood.entry,
    ?_, ?_, ?_⟩
  · intro e hError
    cases hError
  · intro n m hAction
    rw [hAction] at hNoKick
    cases hNoKick
  · intro _ channel member hOther
    rw [hGood.edits.members channel]
    split
    · rename_i hKey
      rw [hKey]
      exact hOthers member hOther
    · exact Iff.rfl

/- A step that may change anyone's membership. -/
theorem stepOk_shared
    {s s' : Store}
    {op : Op}
    (reply : List String)
    (hKept : WellKept s')
    (hNoKick : op.action.isKick = false)
    (hShared : op.action.ownOnly = false) :
    StepOk s op (s', .ok reply) := by
  refine ⟨hKept, ?_, ?_, ?_⟩
  · intro e hError
    cases hError
  · intro n m hAction
    rw [hAction] at hNoKick
    cases hNoKick
  · intro hOwn
    rw [hShared] at hOwn
    cases hOwn

theorem mem_joinEntry
    {entry : GroupEntry}
    {me m : String}
    (pin : Bool)
    (hOther : m ≠ me) :
    m ∈ (joinEntry me pin entry).members ↔
      m ∈ entry.members := by
  unfold joinEntry
  dsimp only
  split
  · exact Iff.rfl
  · simp [hOther]

theorem mem_dropMember
    {entry : Option GroupEntry}
    {member m : String} :
    m ∈ ((kept (entry.map (dropMember member))).map
        GroupEntry.members).getD [] ↔
      m ≠ member ∧
        m ∈ (entry.map GroupEntry.members).getD [] := by
  rw [kept_members]
  cases entry with
  | none => simp
  | some e =>
      simp only [Option.map_some, Option.getD_some,
        dropMember, List.mem_filter, decide_eq_true_eq]
      exact And.comm

theorem step_join
    {s : Store}
    {op : Op}
    {name : String}
    {pin : Bool}
    (hKept : WellKept s)
    (hAction : op.action = .join name pin)
    (hName : NameText name)
    (hMe : MemberSafe op.me) :
    StepOk s op (plain (join s op.me name pin)) := by
  rcases join_cases s op.me name pin with
    ⟨e, hEq⟩ | ⟨hValid, -, hEq⟩
  · rw [hEq]
    exact stepOk_refused op e hKept
  · rw [hEq]
    apply stepOk_own [] hKept
      (joined_good pin hKept hValid hName hMe)
    · rw [hAction]
      rfl
    · intro m hOther
      rw [Option.map_some, Option.getD_some,
        mem_joinEntry pin hOther, members_getD]

theorem step_create
    {s : Store}
    {op : Op}
    {name : String}
    {description : Option String}
    (hKept : WellKept s)
    (hAction : op.action = .create name description)
    (hName : NameText name) :
    StepOk s op (plain (create s name description)) := by
  rcases create_cases s name description with
    ⟨e, hEq⟩ | ⟨text, hValid, hText, hNone, -, hEq⟩
  · rw [hEq]
    exact stepOk_refused op e hKept
  · rw [hEq]
    apply stepOk_own [] hKept
      (created_good hValid hName
        (createDescription_safe hText))
    · rw [hAction]
      rfl
    · intro m hOther
      unfold Store.members
      rw [hNone]
      exact Iff.rfl

theorem createDir_eq_self
    {s : Store}
    {name : String}
    (hDir : s.hasDir name) :
    s.createDir name = s := by
  unfold Store.createDir
  exact if_pos hDir

theorem step_add
    {s : Store}
    {op : Op}
    {name member : String}
    {admitted : Except String Unit}
    (hKept : WellKept s)
    (hAction : op.action = .add name member admitted)
    (hName : NameText name)
    (hMember : MemberText member) :
    StepOk s op (shown (add s name member admitted)) := by
  rcases add_cases s name member admitted with
    ⟨e, hEq⟩ | ⟨hValid, hId, hThere, hOut, hDone⟩
  · rw [hEq]
    exact stepOk_refused op _ hKept
  · have hDir : s.hasDir name := by
      rcases hThere with hEntry | hDir
      · exact hKept.dir_of_isSome name hEntry
      · exact hDir
    rcases hDone with ⟨e, hEq⟩ | hEq
    · rw [hEq, createDir_eq_self hDir]
      exact stepOk_refused op _ hKept
    · have hSafe :=
        (memberSafe_iff_of_validate hId).mpr hMember
      have hGood :=
        added_good hKept hValid hName hSafe hOut
      rw [hEq]
      apply stepOk_shared []
        (hGood.edits.wellKept hKept hGood.entry)
      · rw [hAction]
        rfl
      · rw [hAction]
        rfl

theorem step_leave
    {s : Store}
    {op : Op}
    {name : String}
    (hKept : WellKept s)
    (hAction : op.action = .leave name) :
    StepOk s op (plain (leave s op.me name)) := by
  rcases leave_cases s op.me name with
    ⟨e, hEq⟩ | ⟨s', hEq, hEdits⟩
  · rw [hEq]
    exact stepOk_refused op e hKept
  · rw [hEq]
    apply stepOk_own [] hKept ⟨hEdits, ?_⟩
    · rw [hAction]
      rfl
    · intro m hOther
      rw [mem_dropMember]
      exact and_iff_right hOther
    · apply kept_ok hKept
      intro e hNodup
      exact hNodup.filter _

theorem step_kick
    {s : Store}
    {op : Op}
    {name member : String}
    (hKept : WellKept s)
    (hAction : op.action = .kick name member) :
    StepOk s op (plain (kick s op.me name member)) := by
  rcases kick_cases s op.me name member with
    ⟨e, hEq⟩ | ⟨s', hEq, hPower, hEdits⟩
  · rw [hEq]
    exact stepOk_refused op e hKept
  · rw [hEq]
    refine ⟨hEdits.wellKept hKept ?_, ?_, ?_, ?_⟩
    · apply kept_ok hKept
      intro e hNodup
      exact hNodup.filter _
    · intro e hError
      cases hError
    · intro _ _ _ hAgent channel human hHuman hMem
      have hNe : human ≠ member := by
        rintro rfl
        rw [hPower hAgent] at hHuman
        cases hHuman
      change human ∈ s'.members channel
      rw [hEdits.members channel]
      split
      · rename_i hKey
        rw [mem_dropMember]
        rw [hKey] at hMem
        exact ⟨hNe, hMem⟩
      · exact hMem
    · intro hOwn
      rw [hAction] at hOwn
      cases hOwn

theorem step_pin
    {s : Store}
    {op : Op}
    {name : String}
    (hKept : WellKept s)
    (hAction : op.action = .pin name) :
    StepOk s op (pin s name, .ok []) := by
  rcases pin_cases s name with
    hEq | ⟨entry, hGet, hEdits⟩
  · rw [hEq]
    exact stepOk_same op [] hKept rfl (fun _ hDir => hDir)
  · apply stepOk_own [] hKept ⟨hEdits, ?_⟩
    · rw [hAction]
      rfl
    · intro m hOther
      unfold Store.members
      rw [hGet]
      exact Iff.rfl
    · intro e hMem
      rw [Option.mem_some_iff] at hMem
      rw [← hMem]
      exact ⟨⟨hKept.nodup name entry hGet, Or.inl rfl⟩,
        hKept.valid name entry hGet⟩

theorem step_unpin
    {s : Store}
    {op : Op}
    {name : String}
    (hKept : WellKept s)
    (hAction : op.action = .unpin name) :
    StepOk s op (unpin s name, .ok []) := by
  rcases unpin_cases s name with
    hEq | hEdits
  · rw [hEq]
    exact stepOk_same op [] hKept rfl (fun _ hDir => hDir)
  · apply stepOk_own [] hKept ⟨hEdits, ?_⟩
    · rw [hAction]
      rfl
    · intro m hOther
      rw [kept_members]
      unfold Store.members
      cases s.loadState.get? name with
      | none => exact Iff.rfl
      | some entry => exact Iff.rfl
    · apply kept_ok hKept
      intro e hNodup
      exact hNodup

theorem step_setDescription
    {s : Store}
    {op : Op}
    {name text : String}
    (hKept : WellKept s)
    (hAction : op.action = .setDescription name text) :
    StepOk s op (plain (setDescription s name text)) := by
  rcases setDescription_cases s name text with
    ⟨e, hEq⟩ | ⟨s', entry, normalized, hEq, hGet, hEdits⟩
  · rw [hEq]
    exact stepOk_refused op e hKept
  · rw [hEq]
    apply stepOk_own [] hKept ⟨hEdits, ?_⟩
    · rw [hAction]
      rfl
    · intro m hOther
      unfold Store.members
      rw [hGet]
      exact Iff.rfl
    · intro e hMem
      rw [Option.mem_some_iff] at hMem
      rw [← hMem]
      have hEntry := hKept.entryOk hGet
      exact ⟨⟨hEntry.nodup, hEntry.needed⟩,
        hKept.valid name entry hGet⟩

theorem step_dissolve
    {s : Store}
    {op : Op}
    {name : String}
    (hKept : WellKept s)
    (hAction : op.action = .dissolve name) :
    StepOk s op (dissolve s name) := by
  rcases dissolve_cases s name with
    ⟨e, hEq⟩ | ⟨s', members, hEq, hEdits⟩
  · rw [hEq]
    exact stepOk_refused op e hKept
  · rw [hEq]
    apply stepOk_shared members
    · apply hEdits.wellKept hKept
      intro e hMem
      cases hMem
    · rw [hAction]
      rfl
    · rw [hAction]
      rfl

theorem step_record
    {s : Store}
    {member : String}
    (op : Op)
    (me name kind : String)
    (now : Nat)
    (hKept : WellKept s) :
    StepOk s op
      (plain (writeRecord s me name member kind now)) := by
  rcases writeRecord_cases s me name member kind now with
    ⟨e, hEq⟩ | ⟨s', hEq, hLoad, hDirs⟩
  · rw [hEq]
    exact stepOk_refused op e hKept
  · rw [hEq]
    apply stepOk_same op [] hKept hLoad
    intro n hDir
    rw [hDirs n]
    exact Or.inr hDir

/- One case for each operation. -/
theorem step_ok
    {s : Store}
    {op : Op}
    (hKept : WellKept s)
    (hSafe : op.Safe) :
    StepOk s op (step s op) := by
  unfold Op.Safe at hSafe
  unfold step
  cases hAction : op.action with
  | join name pin =>
      rw [hAction] at hSafe
      exact step_join hKept hAction hSafe.1 hSafe.2
  | create name description =>
      rw [hAction] at hSafe
      exact step_create hKept hAction hSafe
  | add name member admitted =>
      rw [hAction] at hSafe
      exact step_add hKept hAction hSafe.1 hSafe.2
  | leave name => exact step_leave hKept hAction
  | kick name member => exact step_kick hKept hAction
  | pin name => exact step_pin hKept hAction
  | unpin name => exact step_unpin hKept hAction
  | setDescription name text =>
      exact step_setDescription hKept hAction
  | renameMember old new =>
      rw [hAction] at hSafe
      apply stepOk_shared []
        (renameMember_wellKept old hKept hSafe)
      · rw [hAction]
        rfl
      · rw [hAction]
        rfl
  | dissolve name => exact step_dissolve hKept hAction
  | invite name member now =>
      exact step_record op op.me name inviteKind now hKept
  | brief name member now =>
      exact step_record op op.me name briefKind now hKept
  | sweep isLive successor oldEnough =>
      rw [hAction] at hSafe
      apply stepOk_shared _
        (sweep_wellKept isLive oldEnough hKept hSafe)
      · rw [hAction]
        rfl
      · rw [hAction]
        rfl

end Groups

------------------------------------------------------------
-- Runs
------------------------------------------------------------

namespace Groups

theorem wellKept_empty :
    WellKept Store.empty := by
  refine ⟨⟨?_, ?_, ?_⟩, ?_⟩
  · intro name entry hGet
    cases hGet
  · intro name entry hGet
    cases hGet
  · intro name entry hGet
    cases hGet
  · intro name entry hGet
    cases hGet

/-
  In a run from the empty store whose operations write only
  what reads back, every state has what it should have and
  every operation does what it should.
-/
theorem channels_run
    (ops : List Op)
    (hSafe : ∀ op ∈ ops, op.Safe) :
    ChannelsOk (machine.final Store.empty ops) ∧
      ∀ t ∈ machine.trace Store.empty ops,
        ChannelsOk t.before ∧ ChannelsOk t.after ∧
          TurnOk t := by
  have hStep :
      ∀ (s : Store) (op : Op), WellKept s → op.Safe →
        WellKept (machine.step s op).1 := by
    intro s op hKept hOp
    exact (step_ok hKept hOp).kept
  have hOk :
      ∀ t ∈ machine.trace Store.empty ops,
        t.input.Safe := by
    intro t hMem
    exact hSafe t.input
      (StepMachine.input_mem_of_mem_trace hMem)
  constructor
  · exact (StepMachine.invariant_final WellKept
      (fun _ op => op.Safe) hStep hOk
      wellKept_empty).toChannelsOk
  · intro t hMem
    have hBoth :=
      StepMachine.invariant_of_mem_trace WellKept
        (fun _ op => op.Safe) hStep hOk wellKept_empty hMem
    have hTurn := StepMachine.eq_turn_of_mem_trace hMem
    refine ⟨hBoth.1.toChannelsOk, hBoth.2.toChannelsOk, ?_⟩
    rw [hTurn]
    exact (step_ok hBoth.1 (hOk t hMem)).turn

/- Two members, an agent among them, and what they do. -/
def sampleOps : List Op :=
  [{ me := "ada", action := .join "ops" false },
    { me := "ada", action := .add "ops" "pid-7" (.ok ()) },
    { me := "pid-7", action := .kick "ops" "ada" },
    { me := "ada", action := .leave "ops" }]

theorem sampleOps_safe :
    ∀ op ∈ sampleOps, op.Safe := by
  intro op hMem
  simp only [sampleOps, List.mem_cons, List.not_mem_nil,
    or_false] at hMem
  rcases hMem with rfl | rfl | rfl | rfl
  · exact ⟨⟨by decide, by decide⟩,
      ⟨by decide, by decide, by decide⟩⟩
  · exact ⟨⟨by decide, by decide⟩, ⟨by decide, by decide⟩⟩
  · trivial
  · trivial

theorem channels_run_sample :
    ChannelsOk (machine.final Store.empty sampleOps) ∧
      ∀ t ∈ machine.trace Store.empty sampleOps,
        ChannelsOk t.before ∧ ChannelsOk t.after ∧
          TurnOk t :=
  channels_run sampleOps sampleOps_safe

/- A join whose name is two lines of the state file. -/
def forgedJoin : Op :=
  { me := "ada"
    action := .join "ops\nadmins" false }

/- The channel that appears has no directory. -/
theorem channels_run_forged :
    ¬ ChannelsOk
      (machine.final Store.empty [forgedJoin]) := by
  intro hOk
  have hEntry :
      (machine.final Store.empty
        [forgedJoin]).loadState.get? "admins" =
      some
        { pinned := false
          members := ["ada"]
          description := none } := by
    decide
  have hDir := hOk.dir "admins" _ hEntry
  have hNone :
      ((machine.final Store.empty [forgedJoin]).dirs.get?
        "admins").isSome = false := by
    decide
  unfold Store.hasDir at hDir
  rw [hNone] at hDir
  cases hDir

end Groups
