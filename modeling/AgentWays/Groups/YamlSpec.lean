import AgentWays.Groups.Yaml
import AgentWays.Lib.TextSpec

/-
  What the channel state file keeps.

  The reader undoes the writer on exactly the states whose
  texts are safe in a line: a name that starts with no
  whitespace and a member that ends in none, with no newline
  in either. Every state the reader returns is safe, so a
  state that is not is never read back.

  Key definitions include:
    * `Groups.NameSafe`
    * `Groups.MemberSafe`
    * `Groups.DescriptionSafe`
    * `Groups.LineSafe`
    * `Groups.Accepted`

  Main declarations:
    * `Groups.parseGroupsYaml_serialize`
    * `Groups.lineSafe_parseGroupsYaml`
    * `Groups.roundTrip_iff`
-/

------------------------------------------------------------
-- Texts That Are Safe In A Line
------------------------------------------------------------

namespace Groups

open RustText

/- A name whose header line is read back whole. -/
structure NameSafe (name : String) : Prop where
  start : startsBare name = true
  comment : startsWith name "#" = false
  line : '\n' ∉ name.toList
  colon : name.toList.getLast? ≠ some ':'

/- A member whose list item is read back whole. -/
abbrev MemberSafe (member : String) : Prop :=
  TailSafe member

/- A description whose line is read back whole. -/
structure DescriptionSafe (text : String) : Prop where
  nonempty : text ≠ ""
  start : startsBare text = true
  bare : endsBare text = true
  line : '\n' ∉ text.toList

structure EntrySafe (entry : GroupEntry) : Prop where
  members : ∀ m ∈ entry.members, MemberSafe m
  description : ∀ d ∈ entry.description, DescriptionSafe d

/- Every text of the state is safe in its line. -/
def LineSafe
    (state : GroupState) : Prop :=
  state.All
    (fun name entry => NameSafe name ∧ EntrySafe entry)

/- The indent of a line is what was put before it. -/
theorem indentOf_append
    {blank s : String}
    (hBlank : blank.toList.all isWhitespace = true)
    (hStart : startsBare s = true) :
    indentOf (blank ++ s) = blank.utf8ByteSize := by
  unfold indentOf
  rw [trimStart_append s hBlank, trimStart_eq_self hStart,
    String.utf8ByteSize_append, Nat.add_sub_cancel]

end Groups

------------------------------------------------------------
-- Reading One Line
------------------------------------------------------------

namespace Groups

open RustText

/- What a reader sees in the line that a safe name heads. -/
structure HeaderLine
    (name : String) : Prop where
  trimmed : trim (name ++ ":") = name ++ ":"
  indent : indentOf (name ++ ":") = 0
  full : (name ++ ":").isEmpty = false
  comment : startsWith (name ++ ":") "#" = false
  colon : endsWith (name ++ ":") ":" = true
  name : trimEndMatches (name ++ ":") ':' = name

theorem NameSafe.headerLine
    {name : String}
    (hName : NameSafe name) :
    HeaderLine name := by
  have hStart : startsBare (name ++ ":") = true := by
    by_cases hEmpty : name = ""
    · subst hEmpty
      decide
    · exact startsBare_append ":" hEmpty hName.start
  have hEnd : endsBare (name ++ ":") = true :=
    endsBare_append name (by decide) (by decide)
  refine
    { trimmed := trim_eq_self hStart hEnd
      indent := ?_
      full := ?_
      comment := ?_
      colon := ?_
      name := trimEndMatches_append rfl hName.colon }
  · unfold indentOf
    rw [trimStart_eq_self hStart, Nat.sub_self]
  · rw [Bool.eq_false_iff]
    intro hEmpty
    simp at hEmpty
  · have hComment := hName.comment
    unfold startsWith at hComment ⊢
    rw [String.toList_append]
    cases hChars : name.toList with
    | nil => decide
    | cons c rest =>
        rw [hChars] at hComment
        simpa [List.isPrefixOf] using hComment
  · unfold endsWith
    rw [List.isSuffixOf_iff_suffix, String.toList_append]
    exact List.suffix_append _ _

/- A header line starts the channel it names. -/
theorem readLine_name
    {name : String}
    (r : YamlReader)
    (hName : NameSafe name) :
    readLine r (name ++ ":") =
      { rooms := r.save
        currentRoom := some name
        currentPinned := false
        currentMembers := []
        currentDescription := none } := by
  have hLine := hName.headerLine
  unfold readLine
  simp only [hLine.trimmed, hLine.full, hLine.comment,
    hLine.indent, hLine.colon, hLine.name, Bool.or_self,
    Bool.false_eq_true, if_false, decide_true, Bool.and_self,
    if_true]

theorem readLine_pinned
    (r : YamlReader)
    (pinned : Bool) :
    readLine r ("  pinned: " ++ toString pinned) =
      { r with currentPinned := pinned } := by
  cases pinned <;> rfl

theorem readLine_members
    (r : YamlReader) :
    readLine r "  members:" = r := rfl

/-
  An indented line reaches the reader of its level with the
  indent taken off.
-/
theorem readLine_indented
    {blank s : String}
    (r : YamlReader)
    (hBlank : blank.toList.all isWhitespace = true)
    (hIndent : blank.utf8ByteSize ≠ 0)
    (hFull : s ≠ "")
    (hStart : startsBare s = true)
    (hEnd : endsBare s = true)
    (hComment : startsWith s "#" = false) :
    readLine r (blank ++ s) =
      if blank.utf8ByteSize = 2 then readProperty r s
      else if blank.utf8ByteSize = 4 then readMember r s
      else r := by
  have hTrim : trim (blank ++ s) = s := by
    rw [trim_append s hBlank, trim_eq_self hStart hEnd]
  have hEmpty : s.isEmpty = false := by
    simpa [Bool.eq_false_iff] using hFull
  unfold readLine
  simp only [hTrim, hEmpty, hComment,
    indentOf_append hBlank hStart, hIndent, Bool.or_self,
    Bool.false_eq_true, if_false, decide_false,
    Bool.false_and]

theorem readLine_description
    {d : String}
    (r : YamlReader)
    (hText : DescriptionSafe d) :
    readLine r ("  description: " ++ d) =
      { r with currentDescription := some d } := by
  have hLine : "  description: " ++ d =
      "  " ++ ("description: " ++ d) := by
    rw [← String.append_assoc]
    rfl
  have hEnd : endsBare ("description: " ++ d) = true :=
    endsBare_append _ hText.nonempty hText.bare
  have hStart : startsBare ("description: " ++ d) = true :=
    startsBare_append d (by decide) (by decide)
  have hComment :
      startsWith ("description: " ++ d) "#" = false := by
    unfold startsWith
    rw [String.toList_append]
    rfl
  have hFull : "description: " ++ d ≠ "" := by
    simp
  have hSplit : splitOnce ("description: " ++ d) ':' =
      some ("description", " " ++ d) := by
    have hParts : "description: " ++ d =
        "description" ++ ":" ++ (" " ++ d) := by
      rw [← String.append_assoc]
      rfl
    rw [hParts, splitOnce_append rfl (by decide)]
  have hValue : trim (" " ++ d) = d := by
    rw [trim_append d (by decide),
      trim_eq_self hText.start hText.bare]
  have hEmpty : d.isEmpty = false := by
    simpa [Bool.eq_false_iff] using hText.nonempty
  rw [hLine, readLine_indented r (by decide) (by decide)
    hFull hStart hEnd hComment, if_pos (by decide)]
  unfold readProperty
  rw [hSplit]
  simp only [hValue, hEmpty, Bool.not_false, Bool.and_true]
  rfl

theorem readLine_member
    {m : String}
    (r : YamlReader)
    (hMember : MemberSafe m) :
    readLine r ("    - " ++ m) =
      { r with currentMembers := r.currentMembers ++ [m] } := by
  have hLine : "    - " ++ m = "    " ++ ("- " ++ m) := by
    rw [← String.append_assoc]
    rfl
  have hEnd : endsBare ("- " ++ m) = true :=
    endsBare_append _ hMember.nonempty hMember.bare
  have hStart : startsBare ("- " ++ m) = true :=
    startsBare_append m (by decide) (by decide)
  have hComment : startsWith ("- " ++ m) "#" = false := by
    unfold startsWith
    rw [String.toList_append]
    rfl
  have hFull : "- " ++ m ≠ "" := by
    simp
  rw [hLine, readLine_indented r (by decide) (by decide)
    hFull hStart hEnd hComment, if_neg (by decide),
    if_pos (by decide)]
  unfold readMember
  rw [stripPrefix_append]

end Groups

------------------------------------------------------------
-- Reading What Was Written
------------------------------------------------------------

namespace Groups

open RustText

/- The fold over the lines of a text with one line in front. -/
theorem foldl_lines_append
    {line : String}
    (r : YamlReader)
    (rest : String)
    (hLine : '\n' ∉ line.toList)
    (hEnd : endsBare line = true) :
    (lines (line ++ "\n" ++ rest)).foldl readLine r =
      (lines rest).foldl readLine (readLine r line) := by
  rw [lines_append rest hLine hEnd, List.foldl_cons]

/- The members of a channel are read in their order. -/
theorem foldl_memberLines
    {members : List String}
    (r : YamlReader)
    (rest : String)
    (hMembers : ∀ m ∈ members, MemberSafe m) :
    (lines
        (String.join
            (members.map (fun m => "    - " ++ m ++ "\n")) ++
          rest)).foldl readLine r =
      (lines rest).foldl readLine
        { r with
          currentMembers := r.currentMembers ++ members } := by
  induction members generalizing r with
  | nil => simp
  | cons m members ih =>
      have hHead := hMembers m (by simp)
      have hTail : ∀ m ∈ members, MemberSafe m := by
        intro m hMem
        exact hMembers m (List.mem_cons_of_mem _ hMem)
      rw [List.map_cons, String.join_cons, String.append_assoc,
        foldl_lines_append r _
          (not_mem_append (by decide) hHead.line)
          (endsBare_append _ hHead.nonempty hHead.bare),
        readLine_member r hHead, ih _ hTail]
      simp

theorem foldl_descriptionLine
    {description : Option String}
    (r : YamlReader)
    (rest : String)
    (hRead : r.currentDescription = none)
    (hText : ∀ d ∈ description, DescriptionSafe d) :
    (lines (descriptionLine description ++ rest)).foldl
        readLine r =
      (lines rest).foldl readLine
        { r with currentDescription := description } := by
  cases description with
  | none =>
      rw [descriptionLine_none, String.empty_append, ← hRead]
  | some d =>
      have hSafe := hText d rfl
      rw [descriptionLine_some, foldl_lines_append r rest
        (not_mem_append (by decide) hSafe.line)
        (endsBare_append _ hSafe.nonempty hSafe.bare),
        readLine_description r hSafe]

/- A written channel is read back as the one being read. -/
theorem foldl_serializeEntry
    {name : String}
    {entry : GroupEntry}
    (r : YamlReader)
    (rest : String)
    (hName : NameSafe name)
    (hEntry : EntrySafe entry) :
    (lines (serializeEntry name entry ++ rest)).foldl
        readLine r =
      (lines rest).foldl readLine
        { rooms := r.save
          currentRoom := some name
          currentPinned := entry.pinned
          currentMembers := entry.members
          currentDescription := entry.description } := by
  have hNameLine : '\n' ∉ (name ++ ":").toList :=
    not_mem_append hName.line (by decide)
  have hNameEnd : endsBare (name ++ ":") = true :=
    endsBare_append name (by decide) (by decide)
  have hPinned :
      '\n' ∉ ("  pinned: " ++ toString entry.pinned).toList ∧
        endsBare ("  pinned: " ++ toString entry.pinned) =
          true := by
    cases entry.pinned <;> decide
  unfold serializeEntry
  rw [String.append_assoc, foldl_lines_append r _ hNameLine
      hNameEnd, readLine_name r hName,
    String.append_assoc, foldl_lines_append _ _ hPinned.1
      hPinned.2, readLine_pinned,
    String.append_assoc, foldl_descriptionLine _ _ rfl
      hEntry.description,
    String.append_assoc, foldl_lines_append _ _ (by decide)
      (by decide), readLine_members,
    foldl_memberLines _ _ hEntry.members]
  simp

/- Entry after entry, each is saved over those before it. -/
theorem save_foldl_entries
    {entries : List (String × GroupEntry)}
    (r : YamlReader)
    (hSafe :
      ∀ e ∈ entries, NameSafe e.1 ∧ EntrySafe e.2) :
    ((lines
        (String.join
          (entries.map
            (fun e => serializeEntry e.1 e.2)))).foldl
        readLine r).save =
      entries.foldl (fun m e => m.insert e.1 e.2) r.save := by
  induction entries generalizing r with
  | nil => rfl
  | cons e entries ih =>
      have hHead := hSafe e (by simp)
      have hTail :
          ∀ e ∈ entries, NameSafe e.1 ∧ EntrySafe e.2 := by
        intro e hMem
        exact hSafe e (List.mem_cons_of_mem _ hMem)
      rw [List.map_cons, String.join_cons,
        foldl_serializeEntry r _ hHead.1 hHead.2, ih _ hTail]
      rfl

/- A state that is safe in its lines is read back. -/
theorem parseGroupsYaml_serialize
    {state : GroupState}
    (hSafe : LineSafe state) :
    parseGroupsYaml (serializeGroupsYaml state) = state := by
  have hEntries :
      ∀ e ∈ state.entries, NameSafe e.1 ∧ EntrySafe e.2 := by
    intro e hMem
    exact hSafe e.1 e.2 (KeyMap.mem_entries.mp hMem)
  unfold parseGroupsYaml serializeGroupsYaml
  rw [save_foldl_entries _ hEntries]
  exact KeyMap.ofList_entries state

end Groups

------------------------------------------------------------
-- What The Reader Returns
------------------------------------------------------------

namespace Groups

open RustText

/- Whatever the reader holds is safe. -/
structure YamlReader.Safe (r : YamlReader) : Prop where
  rooms : LineSafe r.rooms
  name : ∀ name ∈ r.currentRoom, NameSafe name
  members : ∀ m ∈ r.currentMembers, MemberSafe m
  description :
    ∀ d ∈ r.currentDescription, DescriptionSafe d

theorem YamlReader.Safe.save
    {r : YamlReader}
    (hSafe : r.Safe) :
    LineSafe r.save := by
  unfold YamlReader.save
  cases hRoom : r.currentRoom with
  | none => exact hSafe.rooms
  | some name =>
      apply KeyMap.All.insert hSafe.rooms
      exact ⟨hSafe.name name hRoom,
        ⟨hSafe.members, hSafe.description⟩⟩

/- The start of a trimmed line is bare and no comment. -/
theorem nameSafe_header
    {line : String}
    (hLine : '\n' ∉ line.toList)
    (hComment : startsWith (trim line) "#" = false) :
    NameSafe (trimEndMatches (trim line) ':') := by
  have hPrefix := trimEndMatches_prefix (trim line) ':'
  have hStart := startsBare_trim line
  rcases hPrefix with ⟨tail, hParts⟩
  refine ⟨?_, ?_, ?_, getLast?_trimEndMatches _ _⟩
  · unfold startsBare at hStart ⊢
    rw [← hParts] at hStart
    cases hChars :
        (trimEndMatches (trim line) ':').toList with
    | nil => rfl
    | cons c rest =>
        rw [hChars] at hStart
        exact hStart
  · unfold startsWith at hComment ⊢
    rw [← hParts] at hComment
    cases hChars :
        (trimEndMatches (trim line) ':').toList with
    | nil => rfl
    | cons c rest =>
        rw [hChars] at hComment
        simpa [List.isPrefixOf] using hComment
  · intro hMem
    apply hLine
    apply mem_of_mem_trim
    rw [← hParts]
    exact List.mem_append_left _ hMem

theorem descriptionSafe_value
    {line key value : String}
    (hLine : '\n' ∉ line.toList)
    (hSplit : splitOnce (trim line) ':' = some (key, value))
    (hFull : (trim value).isEmpty = false) :
    DescriptionSafe (trim value) := by
  refine ⟨?_, startsBare_trim _, endsBare_trim _, ?_⟩
  · intro hEmpty
    rw [hEmpty] at hFull
    cases hFull
  · intro hMem
    apply hLine
    apply mem_of_mem_trim
    rw [(splitOnce_eq_some hSplit).1]
    have hValue := mem_of_mem_trim hMem
    exact List.mem_append_right _
      (List.mem_cons_of_mem _ hValue)

/- An item's text is there, and ends where its line does. -/
theorem memberSafe_item
    {line member : String}
    (hLine : '\n' ∉ line.toList)
    (hStrip : stripPrefix (trim line) "- " = some member) :
    MemberSafe member := by
  have hParts := stripPrefix_eq_some hStrip
  have hBare := endsBare_trim line
  unfold endsBare at hBare
  rw [hParts] at hBare
  have hList : member.toList ≠ [] := by
    intro hEmpty
    rw [hEmpty] at hBare
    revert hBare
    decide
  refine ⟨?_, ?_, ?_⟩
  · intro hEmpty
    apply hList
    rw [hEmpty]
    rfl
  · unfold endsBare
    rw [List.getLast?_append_of_ne_nil _ hList] at hBare
    exact hBare
  · intro hMem
    apply hLine
    apply mem_of_mem_trim
    rw [hParts]
    exact List.mem_append_right _ hMem

theorem readProperty_safe
    {r : YamlReader}
    {line : String}
    (hLine : '\n' ∉ line.toList)
    (hSafe : r.Safe) :
    (readProperty r (trim line)).Safe := by
  unfold readProperty
  split
  · exact hSafe
  · rename_i key value hSplit
    dsimp only
    split
    · exact ⟨hSafe.rooms, hSafe.name, hSafe.members,
        hSafe.description⟩
    · split
      · rename_i hKey
        simp only [Bool.and_eq_true, Bool.not_eq_true'] at hKey
        refine ⟨hSafe.rooms, hSafe.name, hSafe.members, ?_⟩
        intro d hMem
        simp only [Option.mem_def, Option.some.injEq] at hMem
        subst hMem
        exact descriptionSafe_value hLine hSplit hKey.2
      · exact hSafe

theorem readMember_safe
    {r : YamlReader}
    {line : String}
    (hLine : '\n' ∉ line.toList)
    (hSafe : r.Safe) :
    (readMember r (trim line)).Safe := by
  unfold readMember
  split
  · rename_i member hStrip
    refine ⟨hSafe.rooms, hSafe.name, ?_, hSafe.description⟩
    intro m hMem
    rcases List.mem_append.mp hMem with hOld | hNew
    · exact hSafe.members m hOld
    · rw [List.mem_singleton] at hNew
      rw [hNew]
      exact memberSafe_item hLine hStrip
  · exact hSafe

/- One line keeps what the reader holds safe. -/
theorem readLine_safe
    {r : YamlReader}
    {line : String}
    (hLine : '\n' ∉ line.toList)
    (hSafe : r.Safe) :
    (readLine r line).Safe := by
  unfold readLine
  dsimp only
  split
  · exact hSafe
  · rename_i hText
    simp only [Bool.or_eq_true, not_or,
      Bool.not_eq_true] at hText
    split
    · refine ⟨hSafe.save, ?_, by simp, by simp⟩
      intro name hMem
      simp only [Option.mem_def, Option.some.injEq] at hMem
      subst hMem
      exact nameSafe_header hLine hText.2
    · split
      · exact readProperty_safe hLine hSafe
      · split
        · exact readMember_safe hLine hSafe
        · exact hSafe

theorem foldl_readLine_safe
    {r : YamlReader}
    {content : List String}
    (hLines : ∀ line ∈ content, '\n' ∉ line.toList)
    (hSafe : r.Safe) :
    (content.foldl readLine r).Safe := by
  induction content generalizing r with
  | nil => exact hSafe
  | cons line content ih =>
      apply ih
      · intro l hMem
        exact hLines l (List.mem_cons_of_mem _ hMem)
      · exact readLine_safe (hLines line (by simp)) hSafe

/- Whatever the file says, the state read from it is safe. -/
theorem lineSafe_parseGroupsYaml
    (content : String) :
    LineSafe (parseGroupsYaml content) := by
  unfold parseGroupsYaml
  apply YamlReader.Safe.save
  apply foldl_readLine_safe
  · intro line hMem
    exact newline_not_mem_lines hMem
  · refine ⟨?_, by simp [YamlReader.start],
      by simp [YamlReader.start], by simp [YamlReader.start]⟩
    intro name entry hGet
    cases hGet

/- The states the file keeps are the safe ones. -/
theorem roundTrip_iff
    (state : GroupState) :
    parseGroupsYaml (serializeGroupsYaml state) = state ↔
      LineSafe state := by
  constructor
  · intro hRead
    rw [← hRead]
    exact lineSafe_parseGroupsYaml _
  · exact parseGroupsYaml_serialize

end Groups

------------------------------------------------------------
-- What The Checks Let Through
------------------------------------------------------------

namespace Groups

open RustText

/-
  Every text of the state has passed the check of the write
  that brought it in.
-/
def Accepted
    (state : GroupState) : Prop :=
  ∀ name entry, state.get? name = some entry →
    validateGroupName name = .ok () ∧
      (∀ m ∈ entry.members, validateMemberId m = .ok ()) ∧
      ∀ d ∈ entry.description,
        ∃ text, normalizeDescription text = .ok (some d)

theorem validateGroupName_ok
    {name : String}
    (hValid : validateGroupName name = .ok ()) :
    name ≠ "" ∧ hasChar name '#' = false ∧
      hasChar name ':' = false := by
  unfold validateGroupName at hValid
  split at hValid
  · cases hValid
  · rename_i hEmpty
    split at hValid
    · cases hValid
    · split at hValid
      · cases hValid
      · split at hValid
        · cases hValid
        · rename_i hHazard
          simp only [Bool.or_eq_true, not_or,
            Bool.not_eq_true] at hHazard
          refine ⟨?_, hHazard⟩
          intro hName
          rw [hName] at hEmpty
          exact hEmpty rfl

theorem validateMemberId_ok
    {member : String}
    (hValid : validateMemberId member = .ok ()) :
    member ≠ "" := by
  rintro rfl
  cases hValid

/- A description that was accepted is safe in its line. -/
theorem descriptionSafe_of_normalize
    {text d : String}
    (hText : normalizeDescription text = .ok (some d)) :
    DescriptionSafe d := by
  unfold normalizeDescription at hText
  split at hText
  · cases hText
  · rename_i hControl
    simp only [Except.ok.injEq] at hText
    split at hText
    · cases hText
    · rename_i hFull
      simp only [Option.some.injEq] at hText
      subst hText
      refine ⟨?_, startsBare_trim _, endsBare_trim _, ?_⟩
      · intro hEmpty
        rw [hEmpty] at hFull
        exact hFull rfl
      · intro hMem
        apply hControl
        rw [List.any_eq_true]
        exact ⟨'\n', mem_of_mem_trim hMem, by decide⟩

theorem startsWith_singleton_mem
    {s head : String}
    {c : Char}
    (hHead : head.toList = [c])
    (hStart : startsWith s head = true) :
    c ∈ s.toList := by
  unfold startsWith at hStart
  rw [List.isPrefixOf_iff_prefix, hHead] at hStart
  exact hStart.subset (by simp)

/- What the check leaves to ask of a name. -/
theorem nameSafe_iff_of_validate
    {name : String}
    (hValid : validateGroupName name = .ok ()) :
    NameSafe name ↔
      startsBare name = true ∧ '\n' ∉ name.toList := by
  have hParts := validateGroupName_ok hValid
  have hHash : '#' ∉ name.toList := by
    simpa [hasChar] using hParts.2.1
  have hColon : ':' ∉ name.toList := by
    simpa [hasChar] using hParts.2.2
  constructor
  · intro hSafe
    exact ⟨hSafe.start, hSafe.line⟩
  · rintro ⟨hStart, hLine⟩
    refine ⟨hStart, ?_, hLine, ?_⟩
    · rw [Bool.eq_false_iff]
      intro hComment
      exact hHash (startsWith_singleton_mem rfl hComment)
    · intro hLast
      exact hColon (List.mem_of_getLast? hLast)

/- What the check leaves to ask of a member. -/
theorem memberSafe_iff_of_validate
    {member : String}
    (hValid : validateMemberId member = .ok ()) :
    MemberSafe member ↔
      endsBare member = true ∧ '\n' ∉ member.toList := by
  constructor
  · intro hSafe
    exact ⟨hSafe.bare, hSafe.line⟩
  · rintro ⟨hBare, hLine⟩
    exact ⟨validateMemberId_ok hValid, hBare, hLine⟩

/-
  An accepted state is read back exactly when no name starts
  with whitespace or holds a newline and no member ends in
  whitespace or holds a newline.
-/
theorem parseGroupsYaml_serialize_iff
    {state : GroupState}
    (hAccepted : Accepted state) :
    parseGroupsYaml (serializeGroupsYaml state) = state ↔
      ∀ name entry, state.get? name = some entry →
        startsBare name = true ∧ '\n' ∉ name.toList ∧
          ∀ m ∈ entry.members,
            endsBare m = true ∧ '\n' ∉ m.toList := by
  rw [roundTrip_iff]
  constructor
  · intro hSafe name entry hGet
    rcases hSafe name entry hGet with ⟨hName, hEntry⟩
    refine ⟨hName.start, hName.line, ?_⟩
    intro m hMem
    have hMember := hEntry.members m hMem
    exact ⟨hMember.bare, hMember.line⟩
  · intro hTexts name entry hGet
    rcases hAccepted name entry hGet with
      ⟨hName, hMembers, hDescription⟩
    rcases hTexts name entry hGet with
      ⟨hStart, hLine, hItems⟩
    refine ⟨(nameSafe_iff_of_validate hName).mpr
      ⟨hStart, hLine⟩, ⟨?_, ?_⟩⟩
    · intro m hMem
      exact (memberSafe_iff_of_validate (hMembers m hMem)).mpr
        (hItems m hMem)
    · intro d hMem
      rcases hDescription d hMem with ⟨text, hText⟩
      exact descriptionSafe_of_normalize hText

/- A channel the checks accept, kept whole by the file. -/
def keptState : GroupState :=
  KeyMap.ofList
    [("ops",
      { pinned := true
        members := ["- a", "#b"]
        description := some "pinned: false" })]

/- A channel the checks accept, whose name is two lines. -/
def forgedState : GroupState :=
  KeyMap.ofList
    [("ops\nadmins",
      { pinned := true
        members := []
        description := none })]

theorem accepted_of_singleton
    {name : String}
    {entry : GroupEntry}
    (hName : validateGroupName name = .ok ())
    (hMembers :
      ∀ m ∈ entry.members, validateMemberId m = .ok ())
    (hDescription :
      ∀ d ∈ entry.description,
        ∃ text, normalizeDescription text = .ok (some d)) :
    Accepted (KeyMap.ofList [(name, entry)]) := by
  intro key value hGet
  have hMem := KeyMap.mem_entries.mpr hGet
  have hPair : (key, value) = (name, entry) := by
    simpa [KeyMap.ofList, KeyMap.insert, KeyMap.put,
      KeyMap.empty] using hMem
  simp only [Prod.mk.injEq] at hPair
  rcases hPair with ⟨rfl, rfl⟩
  exact ⟨hName, hMembers, hDescription⟩

theorem parseGroupsYaml_serialize_kept :
    parseGroupsYaml (serializeGroupsYaml keptState) =
      keptState := by
  have hAccepted : Accepted keptState := by
    apply accepted_of_singleton
    · decide
    · decide
    · intro d hMem
      refine ⟨"pinned: false", ?_⟩
      simp only [Option.mem_def, Option.some.injEq] at hMem
      subst hMem
      rfl
  rw [parseGroupsYaml_serialize_iff hAccepted]
  intro name entry hGet
  have hMem := KeyMap.mem_entries.mpr hGet
  simp only [keptState, KeyMap.ofList, List.foldl_cons,
    List.foldl_nil, KeyMap.insert, KeyMap.put, KeyMap.empty,
    List.mem_singleton, Prod.mk.injEq] at hMem
  rcases hMem with ⟨rfl, rfl⟩
  decide

/- The file gives back another channel than was written. -/
theorem parseGroupsYaml_serialize_forged :
    Accepted forgedState ∧
      parseGroupsYaml (serializeGroupsYaml forgedState) ≠
        forgedState := by
  constructor
  · apply accepted_of_singleton
    · decide
    · decide
    · intro d hMem
      cases hMem
  · decide

end Groups
