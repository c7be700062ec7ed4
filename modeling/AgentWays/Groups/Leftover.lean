import AgentWays.Groups.SweepSpec

/-
  No channel opens on an earlier channel's messages.

  A join and a create refuse a name whose directory holds
  messages and no entry. An add does not ask, so the rule is
  left to its caller. An entry can also come from the text
  of another: a name or an id with a newline in it.

  Key definitions include:
    * `Groups.Event`, an operation or a message
    * `Groups.Guarded`
    * `Groups.OpensEmpty`

  Main declarations:
    * `Groups.names_saveState`
    * `Groups.eventStep_opensEmpty`
    * `Groups.opens_run`
-/

------------------------------------------------------------
-- The Names Of A Written State
------------------------------------------------------------

namespace Groups

open RustText

/- The lines of one channel. -/
def entryLines
    (name : String)
    (entry : GroupEntry) : List String :=
  [name ++ ":", "  pinned: " ++ toString entry.pinned] ++
    entry.description.toList.map
      (fun d => "  description: " ++ d) ++
    ["  members:"] ++
    entry.members.map (fun m => "    - " ++ m)

theorem serializeEntry_eq_join
    (name : String)
    (entry : GroupEntry) :
    serializeEntry name entry =
      String.join
        ((entryLines name entry).map (fun l => l ++ "\n")) := by
  have hMembers :
      (fun m => "    - " ++ m ++ "\n") =
        (fun l => l ++ "\n") ∘ (fun m => "    - " ++ m) :=
    rfl
  unfold serializeEntry entryLines
  rw [hMembers]
  cases entry.description with
  | none =>
      simp [descriptionLine_none, String.append_assoc]
  | some d =>
      simp [descriptionLine_some, String.append_assoc]

/- The lines of the whole file. -/
def stateLines
    (state : GroupState) : List String :=
  state.entries.flatMap (fun e => entryLines e.1 e.2)

theorem serializeGroupsYaml_eq_join
    (state : GroupState) :
    serializeGroupsYaml state =
      String.join
        ((stateLines state).map (fun l => l ++ "\n")) := by
  unfold serializeGroupsYaml stateLines
  induction state.entries with
  | nil => rfl
  | cons e rest ih =>
      rw [List.map_cons, String.join_cons, ih,
        serializeEntry_eq_join, List.flatMap_cons,
        List.map_append, String.join_append]

/- Texts that cannot end their line early. -/
structure Unbroken
    (name : String)
    (entry : GroupEntry) : Prop where
  line : '\n' ∉ name.toList
  colon : name.toList.getLast? ≠ some ':'
  members : ∀ m ∈ entry.members, '\n' ∉ m.toList
  description : ∀ d ∈ entry.description, '\n' ∉ d.toList

/- A line is a channel's header or starts with a space. -/
def HeaderOrIndented
    (state : GroupState)
    (line : String) : Prop :=
  (∃ name, (state.get? name).isSome = true ∧
    name.toList.getLast? ≠ some ':' ∧ line = name ++ ":") ∨
  line.toList.head? = some ' '

theorem entryLines_cases
    {name line : String}
    {entry : GroupEntry}
    (hMem : line ∈ entryLines name entry) :
    line = name ++ ":" ∨
      line = "  pinned: " ++ toString entry.pinned ∨
      (∃ d ∈ entry.description,
        line = "  description: " ++ d) ∨
      line = "  members:" ∨
      ∃ m ∈ entry.members, line = "    - " ++ m := by
  simp only [entryLines, List.mem_append, List.mem_cons,
    List.not_mem_nil, or_false, List.mem_map,
    Option.mem_toList] at hMem
  rcases hMem with
    (((hName | hPinned) | ⟨d, hD, hText⟩) | hMembers) |
      ⟨m, hM, hItem⟩
  · exact Or.inl hName
  · exact Or.inr (Or.inl hPinned)
  · exact Or.inr (Or.inr (Or.inl ⟨d, hD, hText.symm⟩))
  · exact Or.inr (Or.inr (Or.inr (Or.inl hMembers)))
  · exact Or.inr
      (Or.inr (Or.inr (Or.inr ⟨m, hM, hItem.symm⟩)))

theorem newline_not_mem_entryLines
    {name line : String}
    {entry : GroupEntry}
    (hTexts : Unbroken name entry)
    (hMem : line ∈ entryLines name entry) :
    '\n' ∉ line.toList := by
  rcases entryLines_cases hMem with
    hLine | hLine | ⟨d, hD, hLine⟩ | hLine | ⟨m, hM, hLine⟩
  · rw [hLine]
    exact not_mem_append hTexts.line (by decide)
  · rw [hLine]
    cases entry.pinned <;> decide
  · rw [hLine]
    exact not_mem_append (by decide)
      (hTexts.description d hD)
  · rw [hLine]
    decide
  · rw [hLine]
    exact not_mem_append (by decide) (hTexts.members m hM)

theorem head?_append_space
    {front : String}
    (s : String)
    (hFront : front.toList.head? = some ' ') :
    (front ++ s).toList.head? = some ' ' := by
  rw [String.toList_append, List.head?_append, hFront]
  rfl

/- What the reader is given for one written line. -/
theorem headerOrIndented_stripReturn
    {state : GroupState}
    {name line : String}
    {entry : GroupEntry}
    (hGet : state.get? name = some entry)
    (hTexts : Unbroken name entry)
    (hMem : line ∈ entryLines name entry) :
    HeaderOrIndented state
      (String.ofList (stripReturn line.toList)) := by
  have hIndented :
      line.toList.head? = some ' ' →
        HeaderOrIndented state
          (String.ofList (stripReturn line.toList)) := by
    intro hHead
    right
    rw [String.toList_ofList]
    exact head?_stripReturn hHead (by decide)
  rcases entryLines_cases hMem with
    hLine | hLine | ⟨d, hD, hLine⟩ | hLine | ⟨m, hM, hLine⟩
  · left
    refine ⟨name, by rw [hGet]; rfl, hTexts.colon, ?_⟩
    have hEnd : line.toList.getLast? ≠ some '\r' := by
      rw [hLine, String.toList_append]
      simp
    rw [stripReturn_eq_self hEnd, String.ofList_toList, hLine]
  · apply hIndented
    rw [hLine]
    exact head?_append_space _ (by decide)
  · apply hIndented
    rw [hLine]
    exact head?_append_space _ (by decide)
  · apply hIndented
    rw [hLine]
    decide
  · apply hIndented
    rw [hLine]
    exact head?_append_space _ (by decide)

end Groups

------------------------------------------------------------
-- The Names Of What Is Read
------------------------------------------------------------

namespace Groups

open RustText

/- Every channel the reader has is named in the state. -/
structure YamlReader.Named
    (state : GroupState)
    (r : YamlReader) : Prop where
  rooms :
    ∀ n, (r.rooms.get? n).isSome = true →
      (state.get? n).isSome = true
  room :
    ∀ n ∈ r.currentRoom, (state.get? n).isSome = true

theorem YamlReader.Named.save
    {state : GroupState}
    {r : YamlReader}
    (hNamed : r.Named state)
    (n : String)
    (hThere : (r.save.get? n).isSome = true) :
    (state.get? n).isSome = true := by
  unfold YamlReader.save at hThere
  cases hRoom : r.currentRoom with
  | none =>
      rw [hRoom] at hThere
      exact hNamed.rooms n hThere
  | some name =>
      rw [hRoom] at hThere
      dsimp only at hThere
      rw [KeyMap.get?_insert] at hThere
      split at hThere
      · rename_i hKey
        rw [hKey]
        exact hNamed.room name hRoom
      · exact hNamed.rooms n hThere

/- A line with no indent starts with no whitespace. -/
theorem startsBare_of_indentOf
    {line : String}
    (hIndent : indentOf line = 0) :
    startsBare line = true := by
  have hHead := head?_dropWhile isWhitespace line.toList
  have hParts :=
    List.takeWhile_append_dropWhile
      (p := isWhitespace) (l := line.toList)
  cases hBlank : line.toList.takeWhile isWhitespace with
  | nil =>
      rw [hBlank, List.nil_append] at hParts
      unfold startsBare
      rw [← hParts]
      exact hHead
  | cons c rest =>
      exfalso
      have hText : line =
          String.ofList (c :: rest) ++ trimStart line := by
        unfold trimStart
        rw [← String.toList_inj, String.toList_append,
          String.toList_ofList, String.toList_ofList,
          ← hBlank]
        exact hParts.symm
      have hSize : line.utf8ByteSize =
          (String.ofList (c :: rest)).utf8ByteSize +
            (trimStart line).utf8ByteSize := by
        rw [← String.utf8ByteSize_append, ← hText]
      have hPos :
          0 < (String.ofList (c :: rest)).utf8ByteSize := by
        rw [Nat.pos_iff_ne_zero]
        intro hZero
        rw [String.utf8ByteSize_eq_zero_iff] at hZero
        simp at hZero
      unfold indentOf at hIndent
      omega

/- A line read as a header names what it was written for. -/
theorem header_named
    {state : GroupState}
    {line : String}
    (hLine : HeaderOrIndented state line)
    (hIndent : indentOf line = 0) :
    (state.get? (trimEndMatches (trim line) ':')).isSome =
      true := by
  have hStart := startsBare_of_indentOf hIndent
  rcases hLine with ⟨name, hThere, hColon, rfl⟩ | hSpace
  · have hEnd : endsBare (name ++ ":") = true :=
      endsBare_append name (by decide) (by decide)
    rw [trim_eq_self hStart hEnd,
      trimEndMatches_append rfl hColon]
    exact hThere
  · exfalso
    unfold startsBare at hStart
    rw [hSpace] at hStart
    revert hStart
    decide

theorem readProperty_room
    (r : YamlReader)
    (trimmed : String) :
    (readProperty r trimmed).rooms = r.rooms ∧
      (readProperty r trimmed).currentRoom =
        r.currentRoom := by
  unfold readProperty
  split
  · exact ⟨rfl, rfl⟩
  · dsimp only
    split
    · exact ⟨rfl, rfl⟩
    · split
      · exact ⟨rfl, rfl⟩
      · exact ⟨rfl, rfl⟩

theorem readMember_room
    (r : YamlReader)
    (trimmed : String) :
    (readMember r trimmed).rooms = r.rooms ∧
      (readMember r trimmed).currentRoom =
        r.currentRoom := by
  unfold readMember
  split
  · exact ⟨rfl, rfl⟩
  · exact ⟨rfl, rfl⟩

theorem YamlReader.Named.of_same
    {state : GroupState}
    {r r' : YamlReader}
    (hNamed : r.Named state)
    (hSame :
      r'.rooms = r.rooms ∧
        r'.currentRoom = r.currentRoom) :
    r'.Named state := by
  refine ⟨?_, ?_⟩
  · rw [hSame.1]
    exact hNamed.rooms
  · rw [hSame.2]
    exact hNamed.room

theorem readLine_named
    {state : GroupState}
    {r : YamlReader}
    {line : String}
    (hLine : HeaderOrIndented state line)
    (hNamed : r.Named state) :
    (readLine r line).Named state := by
  unfold readLine
  dsimp only
  split
  · exact hNamed
  · split
    · rename_i hHeader
      simp only [Bool.and_eq_true,
        decide_eq_true_eq] at hHeader
      refine ⟨hNamed.save, ?_⟩
      intro n hMem
      simp only [Option.mem_def, Option.some.injEq] at hMem
      rw [← hMem]
      exact header_named hLine hHeader.1
    · split
      · exact hNamed.of_same (readProperty_room r _)
      · split
        · exact hNamed.of_same (readMember_room r _)
        · exact hNamed

theorem foldl_readLine_named
    {state : GroupState}
    {content : List String}
    {r : YamlReader}
    (hLines :
      ∀ line ∈ content, HeaderOrIndented state line)
    (hNamed : r.Named state) :
    (content.foldl readLine r).Named state := by
  induction content generalizing r with
  | nil => exact hNamed
  | cons line content ih =>
      apply ih
      · intro l hMem
        exact hLines l (List.mem_cons_of_mem _ hMem)
      · exact readLine_named (hLines line (by simp)) hNamed

/- No text of a state without newlines makes a new channel. -/
theorem names_saveState
    {state : GroupState}
    {n : String}
    (s : Store)
    (hTexts : state.All Unbroken)
    (hThere :
      ((s.saveState state).loadState.get? n).isSome =
        true) :
    (state.get? n).isSome = true := by
  have hWritten :
      ∀ line ∈ stateLines state,
        ∃ name entry, state.get? name = some entry ∧
          line ∈ entryLines name entry := by
    intro line hMem
    unfold stateLines at hMem
    rw [List.mem_flatMap] at hMem
    rcases hMem with ⟨e, hEntry, hLine⟩
    exact ⟨e.1, e.2, KeyMap.mem_entries.mp hEntry, hLine⟩
  have hNewline :
      ∀ line ∈ stateLines state, '\n' ∉ line.toList := by
    intro line hMem
    rcases hWritten line hMem with
      ⟨name, entry, hGet, hLine⟩
    exact newline_not_mem_entryLines
      (hTexts name entry hGet) hLine
  change
    ((parseGroupsYaml
      (serializeGroupsYaml state)).get? n).isSome =
      true at hThere
  unfold parseGroupsYaml at hThere
  rw [serializeGroupsYaml_eq_join,
    lines_join hNewline] at hThere
  refine YamlReader.Named.save
    (foldl_readLine_named ?_ ?_) n hThere
  · intro line hMem
    rw [List.mem_map] at hMem
    rcases hMem with ⟨written, hMem, rfl⟩
    rcases hWritten written hMem with
      ⟨name, entry, hGet, hLine⟩
    exact headerOrIndented_stripReturn hGet
      (hTexts name entry hGet) hLine
  · refine ⟨?_, ?_⟩
    · intro n hStart
      cases hStart
    · intro n hMem
      cases hMem

end Groups

------------------------------------------------------------
-- Which Names An Operation Brings In
------------------------------------------------------------

namespace Groups

open RustText

/- The text holds no newline. -/
def OneLine
    (s : String) : Prop :=
  '\n' ∉ s.toList

instance (s : String) : Decidable (OneLine s) :=
  inferInstanceAs (Decidable ('\n' ∉ s.toList))

theorem unbroken_loadState
    (s : Store) :
    s.loadState.All Unbroken := by
  refine KeyMap.All.imp (lineSafe_loadState s) ?_
  rintro name entry ⟨hName, hEntry⟩
  exact
    { line := hName.line
      colon := hName.colon
      members := fun m hMem => (hEntry.members m hMem).line
      description :=
        fun d hMem => (hEntry.description d hMem).line }

/- A valid name of one line, with members of one line each. -/
theorem unbroken_of_valid
    {name : String}
    {entry : GroupEntry}
    (hValid : validateGroupName name = .ok ())
    (hName : OneLine name)
    (hMembers : ∀ m ∈ entry.members, OneLine m)
    (hText : ∀ d ∈ entry.description, OneLine d) :
    Unbroken name entry := by
  have hColon : ':' ∉ name.toList := by
    simpa [hasChar] using (validateGroupName_ok hValid).2.2
  refine ⟨hName, ?_, hMembers, hText⟩
  intro hLast
  exact hColon (List.mem_of_getLast? hLast)

/- Saving one more entry brings in its name alone. -/
theorem names_insert
    {s : Store}
    {name n : String}
    {entry : GroupEntry}
    (hEntry : Unbroken name entry)
    (hThere :
      ((s.saveState
        (s.loadState.insert name entry)).loadState.get?
          n).isSome = true) :
    n = name ∨ (s.loadState.get? n).isSome = true := by
  have hNames :=
    names_saveState s
      ((unbroken_loadState s).insert hEntry) hThere
  rw [KeyMap.get?_insert] at hNames
  split at hNames
  · rename_i hKey
    exact Or.inl hKey
  · exact Or.inr hNames

theorem oneLine_getD
    (s : Store)
    (name : String) :
    (∀ m ∈ ((s.loadState.get? name).getD
        GroupEntry.default).members, OneLine m) ∧
      ∀ d ∈ ((s.loadState.get? name).getD
        GroupEntry.default).description, OneLine d := by
  have hSafe := entrySafe_getD s name
  exact ⟨fun m hMem => (hSafe.members m hMem).line,
    fun d hMem => (hSafe.description d hMem).line⟩

theorem names_joined
    {s : Store}
    {me name n : String}
    {pin : Bool}
    (hValid : validateGroupName name = .ok ())
    (hName : OneLine name)
    (hMe : OneLine me)
    (hThere :
      ((joined s me name pin).loadState.get? n).isSome =
        true) :
    n = name ∨ (s.loadState.get? n).isSome = true := by
  have hOld := oneLine_getD s name
  unfold joined at hThere
  rw [loadState_removeRecord, loadState_createDir] at hThere
  apply names_insert _ hThere
  apply unbroken_of_valid hValid hName
  · intro m hMem
    unfold joinEntry at hMem
    dsimp only at hMem
    split at hMem
    · exact hOld.1 m hMem
    · rcases List.mem_append.mp hMem with hIn | hNew
      · exact hOld.1 m hIn
      · rw [List.mem_singleton.mp hNew]
        exact hMe
  · exact hOld.2

theorem names_created
    {s : Store}
    {name n : String}
    {text : Option String}
    (hValid : validateGroupName name = .ok ())
    (hName : OneLine name)
    (hText : ∀ d ∈ text, OneLine d)
    (hThere :
      ((created s name text).loadState.get? n).isSome =
        true) :
    n = name ∨ (s.loadState.get? n).isSome = true := by
  unfold created at hThere
  rw [loadState_createDir] at hThere
  apply names_insert _ hThere
  apply unbroken_of_valid hValid hName
  · intro m hMem
    cases hMem
  · exact hText

theorem names_added
    {s : Store}
    {name member n : String}
    (hValid : validateGroupName name = .ok ())
    (hName : OneLine name)
    (hMember : OneLine member)
    (hThere :
      ((added s name member).loadState.get? n).isSome =
        true) :
    n = name ∨ (s.loadState.get? n).isSome = true := by
  have hOld := oneLine_getD s name
  unfold added at hThere
  rw [loadState_removeRecord] at hThere
  have hEntry :
      Unbroken name
        { (s.loadState.get? name).getD
            GroupEntry.default with
          members :=
            ((s.loadState.get? name).getD
              GroupEntry.default).members ++ [member] } := by
    apply unbroken_of_valid hValid hName
    · intro m hMem
      rcases List.mem_append.mp hMem with hIn | hNew
      · exact hOld.1 m hIn
      · rw [List.mem_singleton.mp hNew]
        exact hMember
    · exact hOld.2
  exact names_insert hEntry hThere

theorem unbroken_mapEntries
    {state : GroupState}
    {edit : GroupEntry → GroupEntry}
    (hState : state.All Unbroken)
    (hMembers :
      ∀ e m, m ∈ (edit e).members →
        m ∈ e.members ∨ OneLine m)
    (hText : ∀ e, (edit e).description = e.description) :
    (mapEntries edit state).All Unbroken := by
  refine all_mapEntries hState ?_
  intro name e hEntry
  refine ⟨hEntry.line, hEntry.colon, ?_, ?_⟩
  · intro m hMem
    rcases hMembers e m hMem with hOld | hNew
    · exact hEntry.members m hOld
    · exact hNew
  · rw [hText e]
    exact hEntry.description

theorem names_renameMember
    {s : Store}
    {old new n : String}
    (hNew : OneLine new)
    (hThere :
      ((renameMember s old new).loadState.get? n).isSome =
        true) :
    (s.loadState.get? n).isSome = true := by
  unfold renameMember at hThere
  dsimp only at hThere
  rw [loadState_moveRecords] at hThere
  split at hThere
  · have hNames := names_saveState s ?_ hThere
    · rw [renameIn, get?_mapEntries,
        Option.isSome_map] at hNames
      exact hNames
    · apply unbroken_mapEntries (unbroken_loadState s)
      · intro e m hMem
        rcases mem_renameEntry hMem with hOld | hAdded
        · exact Or.inl hOld
        · rw [hAdded]
          exact Or.inr hNew
      · exact renameEntry_description old new
  · exact hThere

theorem unbroken_sweptState
    {successor : String → Option String}
    (s : Store)
    (isLive : String → Bool)
    (hSuccessor :
      ∀ sid new, successor sid = some new → OneLine new) :
    (sweptState s isLive successor).All Unbroken := by
  apply unbroken_mapEntries (unbroken_loadState s)
  · intro e m hMem
    rcases mem_sweepEntry hMem with hOld | ⟨p, hIn, hEq⟩
    · exact Or.inl hOld
    · rw [hEq]
      exact Or.inr
        (hSuccessor p.1 p.2 (mem_movedMembers hIn))
  · exact sweepEntry_description _ _

theorem names_sweptState
    {s : Store}
    {isLive : String → Bool}
    {successor : String → Option String}
    {n : String}
    (hThere :
      ((sweptState s isLive successor).get? n).isSome =
        true) :
    (s.loadState.get? n).isSome = true := by
  unfold sweptState at hThere
  rw [get?_mapEntries, Option.isSome_map] at hThere
  exact hThere

theorem names_sweep
    {s : Store}
    {isLive : String → Bool}
    {successor : String → Option String}
    {oldEnough : String → Bool}
    {n : String}
    (hSuccessor :
      ∀ sid new, successor sid = some new → OneLine new)
    (hThere :
      ((cleanupStaleMoving s isLive successor
        oldEnough).1.loadState.get? n).isSome = true) :
    (s.loadState.get? n).isSome = true := by
  have hSwept := unbroken_sweptState s isLive hSuccessor
  rw [sweep_eq, loadState_foldl_removeDir] at hThere
  unfold removedStore at hThere
  dsimp only at hThere
  split at hThere
  · have hNames :=
      names_saveState _
        (KeyMap.All.foldl_erase hSwept _) hThere
    rw [get?_foldl_erase] at hNames
    split at hNames
    · cases hNames
    · exact names_sweptState hNames
  · rw [loadState_foldl_removeDir] at hThere
    unfold movedStore at hThere
    dsimp only at hThere
    rw [loadState_foldl_moveRecords] at hThere
    split at hThere
    · exact names_sweptState
        (names_saveState s hSwept hThere)
    · exact hThere

end Groups

------------------------------------------------------------
-- What A New Channel Opens On
------------------------------------------------------------

namespace Groups

/- An operation, or a message written into a directory. -/
inductive Event where
| op (op : Op)
| post (name file body : String)

/- A message is written where the directory is there. -/
def eventStep
    (s : Store) : Event → Store × Reply
| .op op => step s op
| .post name file body =>
    (s.editDir name (fun dir => dir.insert file body), .ok [])

def eventMachine : StepMachine Store Event Reply :=
  { step := eventStep }

/-
  Every entry the turn brings into being is for a name with
  no message in its directory, before and after.
-/
def OpensEmpty
    (t : StepMachine.Turn Store Event Reply) : Prop :=
  ∀ name,
    t.before.loadState.get? name = none →
    (t.after.loadState.get? name).isSome = true →
      t.before.signals name = [] ∧ t.after.signals name = []

/-
  No newline goes into the state file, and an add is to a
  channel with an entry or with no message in its directory.
-/
def Guarded
    (s : Store) : Event → Prop
| .op op =>
    match op.action with
    | .join name _ => OneLine name ∧ OneLine op.me
    | .create name _ => OneLine name
    | .add name member _ =>
        OneLine name ∧ OneLine member ∧
          ((s.loadState.get? name).isSome = true ∨
            s.signals name = [])
    | .renameMember _ new => OneLine new
    | .sweep _ successor _ =>
        ∀ sid new, successor sid = some new → OneLine new
    | _ => True
| .post _ _ _ => True

@[simp] theorem signals_createDir
    (s : Store)
    (name key : String) :
    (s.createDir name).signals key = s.signals key := by
  unfold Store.createDir
  split
  · rfl
  · rename_i hAbsent
    unfold Store.signals
    rw [KeyMap.get?_insert]
    by_cases hKey : key = name
    · have hNone : s.dirs.get? name = none := by
        simpa using hAbsent
      rw [if_pos hKey, hKey, hNone]
      rfl
    · rw [if_neg hKey]

/- Removing a record leaves no message that was not there. -/
theorem signals_removeRecord
    {s : Store}
    {key : String}
    (name member kind : String)
    (hNone : s.signals key = []) :
    (s.removeRecord name member kind).signals key = [] := by
  unfold Store.removeRecord Store.editDir
  split
  · rename_i dir hDir
    unfold Store.signals at hNone ⊢
    rw [KeyMap.get?_insert]
    by_cases hKey : key = name
    · rw [hKey, hDir] at hNone
      dsimp only at hNone
      rw [if_pos hKey]
      dsimp only
      rw [List.filter_eq_nil_iff] at hNone ⊢
      intro file hMem
      apply hNone
      rw [KeyMap.mem_keys, KeyMap.get?_erase] at hMem
      split at hMem
      · cases hMem
      · exact KeyMap.mem_keys.mpr hMem
    · rw [if_neg hKey]
      exact hNone
  · exact hNone

/- A turn that brings in no name. -/
theorem opensEmpty_of_names
    {t : StepMachine.Turn Store Event Reply}
    (hNames :
      ∀ n, (t.after.loadState.get? n).isSome = true →
        (t.before.loadState.get? n).isSome = true) :
    OpensEmpty t := by
  intro name hNone hSome
  have hThere := hNames name hSome
  rw [hNone] at hThere
  cases hThere

/- A turn that brings in one name, with nothing under it. -/
theorem opensEmpty_of_name
    {t : StepMachine.Turn Store Event Reply}
    {name : String}
    (hNames :
      ∀ n, (t.after.loadState.get? n).isSome = true →
        n = name ∨
          (t.before.loadState.get? n).isSome = true)
    (hEmpty :
      (t.before.loadState.get? name).isSome = true ∨
        t.before.signals name = [])
    (hKeep :
      t.before.signals name = [] →
        t.after.signals name = []) :
    OpensEmpty t := by
  intro n hNone hSome
  rcases hNames n hSome with rfl | hThere
  · rcases hEmpty with hThere | hNoSignals
    · rw [hNone] at hThere
      cases hThere
    · exact ⟨hNoSignals, hKeep hNoSignals⟩
  · rw [hNone] at hThere
    cases hThere

theorem Edits.opensEmpty
    {s s' : Store}
    {name : String}
    {entry : Option GroupEntry}
    (ev : Event)
    (reply : Reply)
    (hEdits : Edits s s' name entry)
    (hEntry :
      entry.isSome = true →
        (s.loadState.get? name).isSome = true) :
    OpensEmpty
      { before := s
        input := ev
        after := s'
        output := reply } := by
  apply opensEmpty_of_names
  intro n hSome
  dsimp only at hSome
  rw [hEdits.load n] at hSome
  split at hSome
  · rename_i hKey
    dsimp only
    rw [hKey]
    exact hEntry hSome
  · exact hSome

theorem opensEmpty_same
    {s s' : Store}
    (ev : Event)
    (reply : Reply)
    (hLoad : s'.loadState = s.loadState) :
    OpensEmpty
      { before := s
        input := ev
        after := s'
        output := reply } := by
  apply opensEmpty_of_names
  intro n hSome
  dsimp only at hSome
  rw [hLoad] at hSome
  exact hSome

theorem isSome_of_kept_map
    {entry : Option GroupEntry}
    {edit : GroupEntry → GroupEntry}
    (hSome : (kept (entry.map edit)).isSome = true) :
    entry.isSome = true := by
  cases entry with
  | none => cases hSome
  | some e => rfl

end Groups

------------------------------------------------------------
-- Every Operation
------------------------------------------------------------

namespace Groups

theorem join_opensEmpty
    {s : Store}
    {me name : String}
    {pin : Bool}
    (ev : Event)
    (hName : OneLine name)
    (hMe : OneLine me) :
    OpensEmpty
      { before := s
        input := ev
        after := (plain (join s me name pin)).1
        output := (plain (join s me name pin)).2 } := by
  rcases join_cases s me name pin with
    ⟨e, hEq⟩ | ⟨hValid, hEmpty, hEq⟩
  · rw [hEq]
    exact opensEmpty_same ev _ rfl
  · rw [hEq]
    apply opensEmpty_of_name _ hEmpty
    · intro hNone
      dsimp only [plain, joined]
      apply signals_removeRecord
      rw [signals_createDir]
      exact hNone
    · intro n hSome
      exact names_joined hValid hName hMe hSome

theorem create_opensEmpty
    {s : Store}
    {name : String}
    {description : Option String}
    (ev : Event)
    (hName : OneLine name) :
    OpensEmpty
      { before := s
        input := ev
        after := (plain (create s name description)).1
        output :=
          (plain (create s name description)).2 } := by
  rcases create_cases s name description with
    ⟨e, hEq⟩ | ⟨text, hValid, hText, -, hEmpty, hEq⟩
  · rw [hEq]
    exact opensEmpty_same ev _ rfl
  · rw [hEq]
    apply opensEmpty_of_name _ (Or.inr hEmpty)
    · intro hNone
      dsimp only [plain, created]
      rw [signals_createDir]
      exact hNone
    · intro n hSome
      apply names_created hValid hName _ hSome
      intro d hMem
      exact (createDescription_safe hText d hMem).line

theorem add_opensEmpty
    {s : Store}
    {name member : String}
    {admitted : Except String Unit}
    (ev : Event)
    (hName : OneLine name)
    (hMember : OneLine member)
    (hEmpty :
      (s.loadState.get? name).isSome = true ∨
        s.signals name = []) :
    OpensEmpty
      { before := s
        input := ev
        after := (shown (add s name member admitted)).1
        output :=
          (shown (add s name member admitted)).2 } := by
  rcases add_cases s name member admitted with
    ⟨e, hEq⟩ | ⟨hValid, -, -, -, ⟨e, hEq⟩ | hEq⟩
  · rw [hEq]
    exact opensEmpty_same ev _ rfl
  · rw [hEq]
    exact opensEmpty_same ev _ (loadState_createDir s name)
  · rw [hEq]
    apply opensEmpty_of_name _ hEmpty
    · intro hNone
      dsimp only [shown, added]
      apply signals_removeRecord
      change (s.createDir name).signals name = []
      rw [signals_createDir]
      exact hNone
    · intro n hSome
      exact names_added hValid hName hMember hSome

theorem writeRecord_opensEmpty
    (ev : Event)
    (s : Store)
    (me name member kind : String)
    (now : Nat) :
    OpensEmpty
      { before := s
        input := ev
        after :=
          (plain (writeRecord s me name member kind now)).1
        output :=
          (plain
            (writeRecord s me name member kind now)).2 } := by
  rcases writeRecord_cases s me name member kind now with
    ⟨e, hEq⟩ | ⟨s', hEq, hLoad, -⟩
  · rw [hEq]
    exact opensEmpty_same ev _ rfl
  · rw [hEq]
    exact opensEmpty_same ev _ hLoad

theorem leave_opensEmpty
    (ev : Event)
    (s : Store)
    (me name : String) :
    OpensEmpty
      { before := s
        input := ev
        after := (plain (leave s me name)).1
        output := (plain (leave s me name)).2 } := by
  rcases leave_cases s me name with
    ⟨e, hEq⟩ | ⟨s', hEq, hEdits⟩
  · rw [hEq]
    exact opensEmpty_same ev _ rfl
  · rw [hEq]
    exact hEdits.opensEmpty ev _ isSome_of_kept_map

theorem kick_opensEmpty
    (ev : Event)
    (s : Store)
    (me name member : String) :
    OpensEmpty
      { before := s
        input := ev
        after := (plain (kick s me name member)).1
        output := (plain (kick s me name member)).2 } := by
  rcases kick_cases s me name member with
    ⟨e, hEq⟩ | ⟨s', hEq, -, hEdits⟩
  · rw [hEq]
    exact opensEmpty_same ev _ rfl
  · rw [hEq]
    exact hEdits.opensEmpty ev _ isSome_of_kept_map

theorem setDescription_opensEmpty
    (ev : Event)
    (s : Store)
    (name text : String) :
    OpensEmpty
      { before := s
        input := ev
        after := (plain (setDescription s name text)).1
        output :=
          (plain (setDescription s name text)).2 } := by
  rcases setDescription_cases s name text with
    ⟨e, hEq⟩ | ⟨s', entry, normalized, hEq, hGet, hEdits⟩
  · rw [hEq]
    exact opensEmpty_same ev _ rfl
  · rw [hEq]
    apply hEdits.opensEmpty ev
    intro _
    rw [hGet]
    rfl

theorem pin_opensEmpty
    (ev : Event)
    (s : Store)
    (name : String)
    (reply : Reply) :
    OpensEmpty
      { before := s
        input := ev
        after := pin s name
        output := reply } := by
  rcases pin_cases s name with hEq | ⟨entry, hGet, hEdits⟩
  · rw [hEq]
    exact opensEmpty_same ev _ rfl
  · apply hEdits.opensEmpty ev
    intro _
    rw [hGet]
    rfl

theorem unpin_opensEmpty
    (ev : Event)
    (s : Store)
    (name : String)
    (reply : Reply) :
    OpensEmpty
      { before := s
        input := ev
        after := unpin s name
        output := reply } := by
  rcases unpin_cases s name with hEq | hEdits
  · rw [hEq]
    exact opensEmpty_same ev _ rfl
  · exact hEdits.opensEmpty ev _ isSome_of_kept_map

theorem dissolve_opensEmpty
    (ev : Event)
    (s : Store)
    (name : String) :
    OpensEmpty
      { before := s
        input := ev
        after := (dissolve s name).1
        output := (dissolve s name).2 } := by
  rcases dissolve_cases s name with
    ⟨e, hEq⟩ | ⟨s', members, hEq, hEdits⟩
  · rw [hEq]
    exact opensEmpty_same ev _ rfl
  · rw [hEq]
    apply hEdits.opensEmpty ev
    intro hSome
    cases hSome

theorem renameMember_opensEmpty
    {new : String}
    (ev : Event)
    (s : Store)
    (old : String)
    (reply : Reply)
    (hNew : OneLine new) :
    OpensEmpty
      { before := s
        input := ev
        after := renameMember s old new
        output := reply } := by
  apply opensEmpty_of_names
  intro n hSome
  dsimp only at hSome ⊢
  exact names_renameMember hNew hSome

theorem sweep_opensEmpty
    {successor : String → Option String}
    (ev : Event)
    (s : Store)
    (isLive : String → Bool)
    (oldEnough : String → Bool)
    (reply : Reply)
    (hSuccessor :
      ∀ sid new, successor sid = some new → OneLine new) :
    OpensEmpty
      { before := s
        input := ev
        after :=
          (cleanupStaleMoving s isLive successor
            oldEnough).1
        output := reply } := by
  apply opensEmpty_of_names
  intro n hSome
  dsimp only at hSome ⊢
  exact names_sweep hSuccessor hSome

/- One case for each operation, and one for a message. -/
theorem eventStep_opensEmpty
    {s : Store}
    {ev : Event}
    (hGuarded : Guarded s ev) :
    OpensEmpty (eventMachine.turn s ev) := by
  cases ev with
  | post name file body =>
      exact opensEmpty_same _ _ (loadState_editDir s name _)
  | op op =>
      unfold Guarded at hGuarded
      dsimp only at hGuarded
      dsimp only [StepMachine.turn, eventMachine, eventStep,
        step]
      cases hAction : op.action with
      | join name pin =>
          rw [hAction] at hGuarded
          exact join_opensEmpty _ hGuarded.1 hGuarded.2
      | create name description =>
          rw [hAction] at hGuarded
          exact create_opensEmpty _ hGuarded
      | add name member admitted =>
          rw [hAction] at hGuarded
          exact add_opensEmpty _ hGuarded.1 hGuarded.2.1
            hGuarded.2.2
      | leave name => exact leave_opensEmpty _ s _ name
      | kick name member =>
          exact kick_opensEmpty _ s _ name member
      | pin name => exact pin_opensEmpty _ s name _
      | unpin name => exact unpin_opensEmpty _ s name _
      | setDescription name text =>
          exact setDescription_opensEmpty _ s name text
      | renameMember old new =>
          rw [hAction] at hGuarded
          exact renameMember_opensEmpty _ s old _ hGuarded
      | dissolve name => exact dissolve_opensEmpty _ s name
      | invite name member now =>
          exact writeRecord_opensEmpty _ s _ name member _ now
      | brief name member now =>
          exact writeRecord_opensEmpty _ s _ name member _ now
      | sweep isLive successor oldEnough =>
          rw [hAction] at hGuarded
          dsimp only
          exact sweep_opensEmpty (.op op) s isLive oldEnough _
            hGuarded

end Groups

------------------------------------------------------------
-- Runs
------------------------------------------------------------

namespace Groups

/-
  In a run from any store whose turns are all guarded, every
  channel opens on an empty directory.
-/
theorem opens_run
    (s : Store)
    (events : List Event)
    (hGuarded :
      ∀ t ∈ eventMachine.trace s events,
        Guarded t.before t.input) :
    ∀ t ∈ eventMachine.trace s events, OpensEmpty t := by
  intro t hMem
  rw [StepMachine.eq_turn_of_mem_trace hMem]
  exact eventStep_opensEmpty (hGuarded t hMem)

/- A directory an earlier channel left, with a message. -/
def leftoverStore : Store :=
  { yaml := none
    dirs :=
      KeyMap.ofList
        [("old", KeyMap.ofList [("m.signal", "x")])] }

/- The leftover is dissolved first, then joined and used. -/
def dissolveFirst : List Event :=
  [.op { me := "ada", action := .dissolve "old" },
    .op { me := "ada", action := .join "old" false },
    .post "old" "n.signal" "y",
    .op { me := "ada", action := .add "old" "bob" (.ok ()) }]

theorem opens_run_dissolveFirst :
    (((eventMachine.final leftoverStore
        dissolveFirst).loadState.get? "old").isSome = true) ∧
      ∀ t ∈ eventMachine.trace leftoverStore dissolveFirst,
        OpensEmpty t := by
  refine ⟨by decide, ?_⟩
  apply opens_run
  intro t hMem
  simp only [dissolveFirst, StepMachine.trace_cons,
    StepMachine.trace_nil, List.mem_cons,
    List.not_mem_nil, or_false] at hMem
  rcases hMem with rfl | rfl | rfl | rfl
  · trivial
  · exact ⟨by decide, by decide⟩
  · trivial
  · refine ⟨by decide, by decide, Or.inl ?_⟩
    decide

/- An add to the leftover opens a channel on its message. -/
theorem opens_run_leftover :
    ¬ ∀ t ∈ eventMachine.trace leftoverStore
        [.op
          { me := "ada"
            action := .add "old" "bob" (.ok ()) }],
      OpensEmpty t := by
  intro hAll
  have hOpens := hAll _ (List.mem_singleton.mpr rfl) "old"
    rfl (by decide)
  have hBefore : leftoverStore.signals "old" = [] :=
    hOpens.1
  have hMessage :
      leftoverStore.signals "old" = ["m.signal"] := by
    decide
  rw [hMessage] at hBefore
  cases hBefore

end Groups
