import AgentWays.Groups.YamlSpec
import AgentWays.Instances.RegistryFile
import AgentWays.Instances.RegistrySpec
import AgentWays.Lib.Decimal

/-
  The registry's file read back.

  Every file is read as rows whose texts are safe in their
  lines, and rows whose texts are safe are written so that
  they are read back.

  Key definitions include:
    * `Instances.ValueSafe`
    * `Instances.Storable`
    * `Instances.Op.Plain`

  Main declarations:
    * `Instances.parseRegistry_serialize`
    * `Instances.storable_parseRegistry`
    * `Instances.Storable.edit`
    * `Instances.rowsOf_runOp`
-/

------------------------------------------------------------
-- Safe Texts
------------------------------------------------------------

namespace Instances

open RustText

/- A value that is read back whole after its key. -/
structure ValueSafe (text : String) : Prop where
  start : startsBare text = true
  bare : endsBare text = true
  line : '\n' ∉ text.toList

/- A row whose texts are safe and whose times fit. -/
structure RowSafe
    (sid : String)
    (e : InstanceEntry) : Prop where
  sid : Groups.NameSafe sid
  name : ValueSafe e.instanceName
  registeredAt : e.registeredAt < 2 ^ 64
  lastSeen : e.lastSeen < 2 ^ 64
  target : ∀ target ∈ e.aliasOf, ValueSafe target

/- Every row is safe in its lines. -/
def Storable
    (rows : Rows) : Prop :=
  rows.All RowSafe

theorem valueSafe_toString
    (n : Nat) :
    ValueSafe (toString n) := by
  have hChars :
      ∀ c ∈ (toString n).toList, isWhitespace c = false :=
    fun c hMem =>
      isWhitespace_of_isDigit (isDigit_of_mem_toString hMem)
  have hTail : TailSafe (toString n) :=
    tailSafe_of_forall (toString_ne_empty n) hChars
  refine ⟨?_, hTail.bare, hTail.line⟩
  unfold startsBare
  cases hText : (toString n).toList with
  | nil => rfl
  | cons c rest =>
      have hHead := hChars c (by rw [hText]; simp)
      simp [hHead]

end Instances

------------------------------------------------------------
-- Reading One Line
------------------------------------------------------------

namespace Instances

open RustText Groups

/- A header line commits a row and starts the next. -/
theorem readRow_header
    {sid : String}
    (r : RegistryReader)
    (hSid : NameSafe sid) :
    readRow r (sid ++ ":") =
      { out := r.commitEntry
        currentSid := some sid
        currentInstance := none
        currentRegisteredAt := none
        currentLastSeen := none
        currentAliasOf := none } := by
  have hLine := hSid.headerLine
  unfold readRow
  simp only [hLine.trimmed, hLine.full, hLine.comment,
    hLine.indent, hLine.colon, hLine.name, Bool.or_self,
    Bool.false_eq_true, if_false, decide_true, Bool.and_self,
    if_true]

/- A key of the rows, as it stands in its line. -/
structure KeyText (key : String) : Prop where
  nonempty : key ≠ ""
  start : startsBare key = true
  bare : endsBare key = true
  comment : startsWith key "#" = false
  colon : ':' ∉ key.toList
  line : '\n' ∉ key.toList

/- A line of a row, as it is written. -/
def fieldLine
    (key value : String) : String :=
  "  " ++ (key ++ (": " ++ value))

/- A value is trimmed back out of its line. -/
theorem exists_trim_fieldLine
    {key value : String}
    (hKey : KeyText key)
    (hValue : ValueSafe value) :
    ∃ tail,
      trim (fieldLine key value) = key ++ ":" ++ tail ∧
        trim tail = value := by
  have hStart : ∀ back, startsBare (key ++ back) = true :=
    fun back => startsBare_append back hKey.nonempty hKey.start
  unfold fieldLine
  rw [trim_append _ (by decide)]
  by_cases hEmpty : value = ""
  · subst hEmpty
    refine ⟨"", ?_, by decide⟩
    have hEnd : endsBare (key ++ ":") = true :=
      endsBare_append key (by decide) (by decide)
    have hText : key ++ (": " ++ "") = key ++ ":" ++ " " := by
      rw [String.append_assoc]
      rfl
    rw [hText,
      trim_append_right (by decide) (hStart ":") hEnd (by simp)]
    simp
  · refine ⟨" " ++ value, ?_, ?_⟩
    · have hText :
          key ++ (": " ++ value) =
            key ++ ":" ++ (" " ++ value) := by
        have hMark : ": " = ":" ++ " " := rfl
        rw [hMark, String.append_assoc, String.append_assoc]
      have hEnd : endsBare (key ++ (": " ++ value)) = true :=
        endsBare_append key (by simp)
          (endsBare_append ": " hEmpty hValue.bare)
      rw [trim_eq_self (hStart _) hEnd, hText]
    · rw [trim_append _ (by decide),
        trim_eq_self hValue.start hValue.bare]

/- A field's line sets the field. -/
theorem readRow_fieldLine
    {key value : String}
    (r : RegistryReader)
    (hKey : KeyText key)
    (hValue : ValueSafe value) :
    readRow r (fieldLine key value) = r.setField key value := by
  rcases exists_trim_fieldLine hKey hValue with
    ⟨tail, hTrim, hTail⟩
  have hStart : startsBare (key ++ (": " ++ value)) = true :=
    startsBare_append _ hKey.nonempty hKey.start
  have hIndent : indentOf (fieldLine key value) = 2 :=
    indentOf_append (by decide) hStart
  have hFull : (key ++ ":" ++ tail).isEmpty = false := by
    simp [Bool.eq_false_iff]
  have hComment :
      startsWith (key ++ ":" ++ tail) "#" = false := by
    have hKeyComment := hKey.comment
    have hNonempty := hKey.nonempty
    unfold startsWith at hKeyComment ⊢
    rw [String.toList_append, String.toList_append]
    cases hChars : key.toList with
    | nil =>
        rw [String.toList_eq_nil_iff] at hChars
        exact absurd hChars hNonempty
    | cons c rest =>
        rw [hChars] at hKeyComment
        simpa [List.isPrefixOf] using hKeyComment
  unfold readRow
  simp only [hTrim, hFull, hComment, hIndent, Bool.or_self,
    Bool.false_eq_true, if_false, if_true,
    Nat.reduceEqDiff, decide_false, Bool.false_and]
  unfold readField
  rw [splitOnce_append rfl hKey.colon]
  dsimp only
  rw [trim_eq_self hKey.start hKey.bare, hTail]

end Instances

------------------------------------------------------------
-- Reading What Was Written
------------------------------------------------------------

namespace Instances

open RustText Groups

theorem keyText_instance : KeyText "instance" := by
  constructor <;> decide

theorem keyText_registeredAt : KeyText "registered_at" := by
  constructor <;> decide

theorem keyText_lastSeen : KeyText "last_seen" := by
  constructor <;> decide

theorem keyText_aliasOf : KeyText "alias_of" := by
  constructor <;> decide

/- A field's line is read, and the rest after it. -/
theorem foldl_fieldLine
    {key value : String}
    (r : RegistryReader)
    (rest : String)
    (hKey : KeyText key)
    (hValue : ValueSafe value) :
    (lines (fieldLine key value ++ "\n" ++ rest)).foldl
        readRow r =
      (lines rest).foldl readRow (r.setField key value) := by
  have hLine : '\n' ∉ (fieldLine key value).toList := by
    unfold fieldLine
    exact not_mem_append (by decide)
      (not_mem_append hKey.line
        (not_mem_append (by decide) hValue.line))
  have hEnd :
      (fieldLine key value).toList.getLast? ≠ some '\r' := by
    by_cases hEmpty : value = ""
    · subst hEmpty
      have hLast :
          (fieldLine key "").toList.getLast? = some ' ' := by
        have hText :
            (fieldLine key "").toList =
              ("  " ++ key ++ ":").toList ++ [' '] := by
          simp [fieldLine]
        rw [hText, List.getLast?_concat]
      rw [hLast]
      decide
    · apply endsBare_not_return
      unfold fieldLine
      exact endsBare_append _ (by simp)
        (endsBare_append key (by simp)
          (endsBare_append ": " hEmpty hValue.bare))
  rw [lines_append_of_not_return rest hLine hEnd,
    List.foldl_cons, readRow_fieldLine r hKey hValue]

theorem foldl_aliasLine
    {target : Option String}
    (r : RegistryReader)
    (rest : String)
    (hNone : r.currentAliasOf = none)
    (hTarget : ∀ t ∈ target, ValueSafe t) :
    (lines (aliasLine target ++ rest)).foldl readRow r =
      (lines rest).foldl readRow
        { r with currentAliasOf := target } := by
  cases target with
  | none =>
      rw [aliasLine, String.empty_append, ← hNone]
  | some t =>
      have hText :
          aliasLine (some t) = fieldLine "alias_of" t ++ "\n" := by
        have hMark : "  alias_of: " = "  " ++ "alias_of" ++ ": " :=
          rfl
        unfold aliasLine fieldLine
        rw [hMark]
        simp only [String.append_assoc]
      rw [hText,
        foldl_fieldLine r rest keyText_aliasOf (hTarget t rfl)]
      rfl

/- A written row is read back as the one being read. -/
theorem foldl_serializeRow
    {sid : String}
    {e : InstanceEntry}
    (r : RegistryReader)
    (rest : String)
    (hRow : RowSafe sid e) :
    (lines (serializeRow sid e ++ rest)).foldl readRow r =
      (lines rest).foldl readRow
        { out := r.commitEntry
          currentSid := some sid
          currentInstance := some e.instanceName
          currentRegisteredAt := some e.registeredAt
          currentLastSeen := some e.lastSeen
          currentAliasOf := e.aliasOf } := by
  have hSidLine : '\n' ∉ (sid ++ ":").toList :=
    not_mem_append hRow.sid.line (by decide)
  have hSidEnd : endsBare (sid ++ ":") = true :=
    endsBare_append sid (by decide) (by decide)
  have hText :
      serializeRow sid e ++ rest =
        sid ++ ":" ++ "\n" ++
          (fieldLine "instance" e.instanceName ++ "\n" ++
            (fieldLine "registered_at"
                (toString e.registeredAt) ++ "\n" ++
              (fieldLine "last_seen" (toString e.lastSeen) ++
                "\n" ++ (aliasLine e.aliasOf ++ rest)))) := by
    unfold serializeRow fieldLine
    simp only [String.append_assoc]
    rfl
  rw [hText, lines_append _ hSidLine hSidEnd,
    List.foldl_cons, readRow_header r hRow.sid,
    foldl_fieldLine _ _ keyText_instance hRow.name,
    foldl_fieldLine _ _ keyText_registeredAt
      (valueSafe_toString _),
    foldl_fieldLine _ _ keyText_lastSeen
      (valueSafe_toString _),
    foldl_aliasLine _ _ rfl hRow.target]
  simp only [RegistryReader.setField,
    parseUnsigned_toString hRow.registeredAt,
    parseUnsigned_toString hRow.lastSeen]
  rfl

/- Row after row, each is committed over those before it. -/
theorem commitEntry_foldl_entries
    {entries : List (String × InstanceEntry)}
    (r : RegistryReader)
    (hSafe : ∀ e ∈ entries, RowSafe e.1 e.2) :
    ((lines
        (String.join
          (entries.map
            (fun e => serializeRow e.1 e.2)))).foldl
        readRow r).commitEntry =
      entries.foldl (fun m e => m.insert e.1 e.2)
        r.commitEntry := by
  induction entries generalizing r with
  | nil => rfl
  | cons e entries ih =>
      have hTail : ∀ e ∈ entries, RowSafe e.1 e.2 := by
        intro e hMem
        exact hSafe e (List.mem_cons_of_mem _ hMem)
      rw [List.map_cons, String.join_cons,
        foldl_serializeRow r _ (hSafe e (by simp)), ih _ hTail]
      rfl

/- Rows that are safe in their lines are read back. -/
theorem parseRegistry_serialize
    {rows : Rows}
    (hSafe : Storable rows) :
    parseRegistry (serializeRegistry rows) = rows := by
  have hEntries :
      ∀ e ∈ rows.entries, RowSafe e.1 e.2 := by
    intro e hMem
    exact hSafe e.1 e.2 (KeyMap.mem_entries.mp hMem)
  unfold parseRegistry serializeRegistry
  rw [commitEntry_foldl_entries _ hEntries]
  exact KeyMap.ofList_entries rows

end Instances

------------------------------------------------------------
-- Whatever the File Says
------------------------------------------------------------

namespace Instances

open RustText Groups

/- The texts and numbers a reader holds are safe. -/
structure RegistryReader.Safe (r : RegistryReader) : Prop where
  out : Storable r.out
  sid : ∀ sid ∈ r.currentSid, NameSafe sid
  name : ∀ name ∈ r.currentInstance, ValueSafe name
  registeredAt : ∀ t ∈ r.currentRegisteredAt, t < 2 ^ 64
  lastSeen : ∀ t ∈ r.currentLastSeen, t < 2 ^ 64
  target : ∀ target ∈ r.currentAliasOf, ValueSafe target

theorem getD_lt
    {t : Option Nat}
    (hTime : ∀ n ∈ t, n < 2 ^ 64) :
    t.getD 0 < 2 ^ 64 := by
  cases t with
  | none => decide
  | some n => exact hTime n rfl

theorem RegistryReader.Safe.commitEntry
    {r : RegistryReader}
    (hSafe : r.Safe) :
    Storable r.commitEntry := by
  unfold RegistryReader.commitEntry
  split
  · rename_i sid name hSid hName
    apply KeyMap.All.insert hSafe.out
    exact
      { sid := hSafe.sid sid hSid
        name := hSafe.name name hName
        registeredAt := getD_lt hSafe.registeredAt
        lastSeen := getD_lt hSafe.lastSeen
        target := hSafe.target }
  · exact hSafe.out

theorem valueSafe_trim
    {line key value : String}
    (hLine : '\n' ∉ line.toList)
    (hSplit : splitOnce (trim line) ':' = some (key, value)) :
    ValueSafe (trim value) := by
  refine ⟨startsBare_trim _, endsBare_trim _, ?_⟩
  intro hMem
  apply hLine
  apply mem_of_mem_trim
  rw [(splitOnce_eq_some hSplit).1]
  exact List.mem_append_right _
    (List.mem_cons_of_mem _ (mem_of_mem_trim hMem))

theorem RegistryReader.Safe.setField
    {r : RegistryReader}
    {value : String}
    (hSafe : r.Safe)
    (key : String)
    (hValue : ValueSafe value) :
    (r.setField key value).Safe := by
  have hText : ∀ v ∈ some value, ValueSafe v := by
    intro v hMem
    rw [Option.mem_def, Option.some.injEq] at hMem
    rw [← hMem]
    exact hValue
  have hTime : ∀ t ∈ parseUnsigned 64 value, t < 2 ^ 64 :=
    fun t hMem => (parseUnsigned_iff.mp hMem).2
  unfold RegistryReader.setField
  split
  · exact { hSafe with name := hText }
  · split
    · exact { hSafe with registeredAt := hTime }
    · split
      · exact { hSafe with lastSeen := hTime }
      · split
        · exact { hSafe with target := hText }
        · exact hSafe

/- One line keeps what the reader holds safe. -/
theorem RegistryReader.Safe.readRow
    {r : RegistryReader}
    {line : String}
    (hSafe : r.Safe)
    (hLine : '\n' ∉ line.toList) :
    (Instances.readRow r line).Safe := by
  unfold Instances.readRow
  dsimp only
  split
  · exact hSafe
  · rename_i hText
    simp only [Bool.or_eq_true, not_or,
      Bool.not_eq_true] at hText
    split
    · refine ⟨hSafe.commitEntry, ?_, by simp, by simp, by simp,
        by simp⟩
      intro sid hMem
      rw [Option.mem_def, Option.some.injEq] at hMem
      rw [← hMem]
      exact nameSafe_header hLine hText.2
    · split
      · unfold readField
        split
        · exact hSafe
        · rename_i key value hSplit
          exact hSafe.setField _ (valueSafe_trim hLine hSplit)
      · exact hSafe

theorem RegistryReader.Safe.foldl_readRow
    {r : RegistryReader}
    {content : List String}
    (hSafe : r.Safe)
    (hLines : ∀ line ∈ content, '\n' ∉ line.toList) :
    (content.foldl Instances.readRow r).Safe := by
  induction content generalizing r with
  | nil => exact hSafe
  | cons line content ih =>
      apply ih (hSafe.readRow (hLines line (by simp)))
      intro l hMem
      exact hLines l (List.mem_cons_of_mem _ hMem)

/- Whatever the file says, the rows read from it are safe. -/
theorem storable_parseRegistry
    (content : String) :
    Storable (parseRegistry content) := by
  have hStart : RegistryReader.start.Safe := by
    refine ⟨?_, by simp [RegistryReader.start],
      by simp [RegistryReader.start],
      by simp [RegistryReader.start],
      by simp [RegistryReader.start],
      by simp [RegistryReader.start]⟩
    intro sid e hGet
    cases hGet
  unfold parseRegistry
  apply RegistryReader.Safe.commitEntry
  apply hStart.foldl_readRow
  intro line hMem
  exact newline_not_mem_lines hMem

/- No file has no rows. -/
theorem rowsOf_none :
    rowsOf none = KeyMap.empty := by
  have hEmpty : Storable KeyMap.empty := by
    intro sid e hGet
    cases hGet
  exact parseRegistry_serialize hEmpty

theorem storable_rowsOf
    (file : Option String) :
    Storable (rowsOf file) :=
  storable_parseRegistry _

end Instances

------------------------------------------------------------
-- Whatever Is Written
------------------------------------------------------------

namespace Instances

open RustText Groups

variable {rows : Rows}

/-
  An id that can head a row: it starts with no whitespace
  and no `#`, ends in no colon and holds no newline.
-/
abbrev HeadText (id : String) : Prop :=
  NameSafe id

/-
  The ids an operation writes are read back. The new id of a
  rename is also written as a target, so it ends in no
  whitespace either.
-/
def Op.Plain : Op → Prop
| .register sid _ _ => HeadText sid
| .rename _ new _ => HeadText new ∧ ValueSafe new
| .touch _ _ => True
| .evict _ => True

theorem valueSafe_nextFreeNumber
    (taken : List String)
    (fuel n : Nat) :
    ValueSafe (nextFreeNumber taken fuel n) := by
  induction fuel generalizing n with
  | zero => exact valueSafe_toString n
  | succ fuel ih =>
      rw [nextFreeNumber]
      split
      · exact ih (n + 1)
      · exact valueSafe_toString n

theorem valueSafe_greek :
    ∀ letter ∈ greek, ValueSafe letter := by
  have hAll :
      greek.all
        (fun l => startsBare l && endsBare l &&
          !(l.toList.contains '\n')) = true := by
    decide
  intro letter hMem
  have hLetter := List.all_eq_true.mp hAll letter hMem
  simp only [Bool.and_eq_true, Bool.not_eq_true',
    List.contains_eq_mem, decide_eq_false_iff_not] at hLetter
  exact ⟨hLetter.1.1, hLetter.1.2, hLetter.2⟩

theorem valueSafe_nextFreeInstance
    (taken : List String) :
    ValueSafe (nextFreeInstance taken) := by
  unfold nextFreeInstance
  split
  · rename_i letter hFind
    exact valueSafe_greek letter (List.mem_of_find?_eq_some hFind)
  · exact valueSafe_nextFreeNumber _ _ _

theorem storable_mapRows
    {edit : String → InstanceEntry → InstanceEntry}
    (hEdit :
      ∀ id e, rows.get? id = some e → RowSafe id (edit id e)) :
    Storable (mapRows edit rows) := by
  intro id e hGet
  rw [get?_mapRows, Option.map_eq_some_iff] at hGet
  rcases hGet with ⟨e', hRow, rfl⟩
  exact hEdit id e' hRow

theorem Storable.detach
    (hSafe : Storable rows)
    (x : String) :
    Storable (detach rows x) := by
  unfold Instances.detach
  split
  · exact hSafe
  · rename_i entry hEntry
    split
    · exact KeyMap.All.erase hSafe x
    · rename_i target hTarget
      have hRest : Storable (rows.erase x) :=
        KeyMap.All.erase hSafe x
      apply storable_mapRows
      intro id e hGet
      have hRow : RowSafe id e := hRest id e hGet
      split
      · refine { hRow with target := ?_ }
        intro t hMem
        rw [Option.mem_def, Option.some.injEq] at hMem
        rw [← hMem]
        exact (hSafe x entry hEntry).target target hTarget
      · exact hRow

theorem Storable.foldl_detach
    (hSafe : Storable rows)
    (ids : List String) :
    Storable (ids.foldl Instances.detach rows) := by
  induction ids generalizing rows with
  | nil => exact hSafe
  | cons id ids ih => exact ih (hSafe.detach id)

theorem Storable.refresh
    (hSafe : Storable rows)
    (id : String)
    (now : UInt64) :
    Storable (refresh rows id now.toNat) := by
  unfold Instances.refresh
  split
  · exact hSafe
  · rename_i e hGet
    apply KeyMap.All.insert hSafe
    exact { hSafe id e hGet with lastSeen := now.toNat_lt }

theorem Storable.allocate
    {sid : String}
    (hSafe : Storable rows)
    (hSid : HeadText sid)
    (now : UInt64) :
    Storable (allocate rows sid now.toNat).1 := by
  apply KeyMap.All.insert
    ((hSafe.detach sid).foldl_detach _)
  exact
    { sid := hSid
      name := valueSafe_nextFreeInstance _
      registeredAt := now.toNat_lt
      lastSeen := now.toNat_lt
      target := by simp }

theorem Storable.registerWithAge
    {sid : String}
    (hSafe : Storable rows)
    (hSid : HeadText sid)
    (gcAge : Nat)
    (now : UInt64) :
    Storable (registerWithAge sid gcAge now.toNat rows).1 := by
  have hKept :
      Storable (prune sid (now.toNat - gcAge) rows) := by
    intro id e hGet
    have hRow :=
      get?_of_prune (a := id) (by rw [hGet]; rfl)
    rw [hGet] at hRow
    exact hSafe id e hRow.symm
  unfold Instances.registerWithAge
  dsimp only
  split
  · exact hKept.refresh sid now
  · exact hKept.allocate hSid now

theorem Storable.takeSlot
    {old new : String}
    (hSafe : Storable rows)
    (hNew : HeadText new)
    (now : UInt64) :
    Storable (takeSlot rows old new now.toNat).1 := by
  unfold Instances.takeSlot
  split
  · exact hSafe
  · dsimp only
    split
    · exact hSafe.detach new
    · rename_i slot hGet
      apply KeyMap.All.insert (hSafe.detach new)
      exact
        { hSafe.detach new old slot hGet with
          sid := hNew
          lastSeen := now.toNat_lt }

/- The name a rename gives was one of the rows' own. -/
theorem valueSafe_takeSlot
    {old new : String}
    (hSafe : Storable rows)
    (now : Nat) :
    ValueSafe (takeSlot rows old new now).2 := by
  unfold Instances.takeSlot
  split
  · rename_i name hHeld
    have hName := (held_eq_some_iff.mp hHeld).1
    unfold nameOf at hName
    rw [Option.map_eq_some_iff] at hName
    rcases hName with ⟨e, hGet, hShows⟩
    rw [← hShows]
    exact (hSafe new e hGet).name
  · dsimp only
    split
    · change ValueSafe ""
      exact ⟨by decide, by decide, by decide⟩
    · rename_i slot hGet
      exact (hSafe.detach new old slot hGet).name

theorem Storable.rename
    {old new : String}
    (hSafe : Storable rows)
    (hNew : HeadText new)
    (hTarget : ValueSafe new)
    (now : UInt64) :
    Storable (rename old new now.toNat rows) := by
  have hTaken :
      Storable (Instances.takeSlot rows old new now.toNat).1 :=
    hSafe.takeSlot hNew now
  have hAliased :
      Storable
        (aliasTo
          (Instances.takeSlot rows old new now.toNat).1
          old new) := by
    unfold aliasTo
    split
    · exact hTaken
    · rename_i e hGet
      apply KeyMap.All.insert hTaken
      refine { hTaken old e hGet with target := ?_ }
      intro t hMem
      rw [Option.mem_def, Option.some.injEq] at hMem
      rw [← hMem]
      exact hTarget
  unfold Instances.rename
  split
  · exact hSafe
  · apply storable_mapRows
    intro id e hGet
    split
    · exact
        { hAliased id e hGet with
          name := valueSafe_takeSlot hSafe now.toNat }
    · exact hAliased id e hGet

/- The rows an operation writes are safe in their lines. -/
theorem Storable.edit
    {op : Op}
    {written : Rows}
    (hSafe : Storable rows)
    (hPlain : op.Plain)
    (hWritten : (op.edit rows).1 = some written) :
    Storable written := by
  cases op with
  | register sid gcAge now =>
      rw [Op.edit, Option.some.injEq] at hWritten
      rw [← hWritten]
      exact hSafe.registerWithAge hPlain gcAge now
  | rename old new now =>
      rw [Op.edit] at hWritten
      split at hWritten
      · cases hWritten
      · rw [Option.some.injEq] at hWritten
        rw [← hWritten]
        exact hSafe.rename hPlain.1 hPlain.2 now
  | touch sid now =>
      rw [Op.edit] at hWritten
      dsimp only at hWritten
      split at hWritten
      · rw [Option.some.injEq] at hWritten
        rw [← hWritten]
        exact hSafe.refresh sid now
      · cases hWritten
  | evict sid =>
      rw [Op.edit] at hWritten
      dsimp only at hWritten
      split at hWritten
      · rw [Option.some.injEq] at hWritten
        rw [← hWritten]
        exact hSafe.detach sid
      · cases hWritten

/- The ids a reader holds lie in the text it reads. -/
structure RegistryReader.Within
    (content : String)
    (r : RegistryReader) : Prop where
  out :
    r.out.All (fun sid _ => contains content sid = true)
  sid : ∀ sid ∈ r.currentSid, contains content sid = true

theorem RegistryReader.Within.commitEntry
    {content : String}
    {r : RegistryReader}
    (hWithin : r.Within content) :
    r.commitEntry.All
      (fun sid _ => contains content sid = true) := by
  unfold RegistryReader.commitEntry
  split
  · rename_i sid name hSid hName
    exact KeyMap.All.insert hWithin.out (hWithin.sid sid hSid)
  · exact hWithin.out

theorem RegistryReader.Within.setField
    {content : String}
    {r : RegistryReader}
    (hWithin : r.Within content)
    (key value : String) :
    (r.setField key value).Within content := by
  unfold RegistryReader.setField
  split
  · exact ⟨hWithin.out, hWithin.sid⟩
  · split
    · exact ⟨hWithin.out, hWithin.sid⟩
    · split
      · exact ⟨hWithin.out, hWithin.sid⟩
      · split
        · exact ⟨hWithin.out, hWithin.sid⟩
        · exact hWithin

theorem RegistryReader.Within.readRow
    {content line : String}
    {r : RegistryReader}
    (hWithin : r.Within content)
    (hLine : line ∈ lines content) :
    (Instances.readRow r line).Within content := by
  unfold Instances.readRow
  dsimp only
  split
  · exact hWithin
  · split
    · refine ⟨hWithin.commitEntry, ?_⟩
      intro sid hMem
      rw [Option.mem_def, Option.some.injEq] at hMem
      rw [← hMem, contains_iff_infix]
      exact ( trimEndMatches_prefix _ _).isInfix.trans
        ((isInfix_trim line).trans (infix_of_mem_lines hLine))
    · split
      · unfold readField
        split
        · exact hWithin
        · exact hWithin.setField _ _
      · exact hWithin

/- The file of a row holds the text of its id. -/
theorem contains_of_get?
    {content sid : String}
    {e : InstanceEntry}
    (hGet : (parseRegistry content).get? sid = some e) :
    contains content sid = true := by
  have hFold :
      ∀ (read : List String) (r : RegistryReader),
        (∀ line ∈ read, line ∈ lines content) →
          r.Within content →
            (read.foldl readRow r).Within content := by
    intro read
    induction read with
    | nil => exact fun r _ hWithin => hWithin
    | cons line read ih =>
        intro r hLines hWithin
        apply ih _
          (fun l hMem => hLines l (List.mem_cons_of_mem _ hMem))
        exact hWithin.readRow (hLines line (by simp))
  have hStart : RegistryReader.start.Within content := by
    refine ⟨?_, by simp [RegistryReader.start]⟩
    intro id row hRow
    cases hRow
  exact (hFold _ _ (fun _ hMem => hMem) hStart).commitEntry
    sid e hGet

/- A call that passes the file over had nothing to write. -/
theorem edit_of_passes
    {op : Op}
    {file : Option String}
    (hPasses : op.passes file = true) :
    (op.edit (rowsOf file)).1 = none := by
  cases op with
  | register sid gcAge now => cases hPasses
  | rename old new now => cases hPasses
  | touch sid now =>
      have hFile : file = none := by
        simpa [Op.passes] using hPasses
      rw [hFile, rowsOf_none]
      rfl
  | evict sid =>
      have hNone : (rowsOf file).get? sid = none := by
        cases hFile : file with
        | none =>
            rw [rowsOf_none]
            rfl
        | some content =>
            rw [hFile] at hPasses
            have hOut : contains content sid = false := by
              simpa [Op.passes] using hPasses
            cases hGet : (rowsOf (some content)).get? sid with
            | none => rfl
            | some e =>
                have hIn : contains content sid = true :=
                  contains_of_get? hGet
                rw [hIn] at hOut
                cases hOut
      rw [Op.edit, hNone]
      rfl

/-
  What a file's rows are after an operation: the rows it
  wrote, or the rows there were. The look at a file before
  its lock is only a filter.
-/
theorem rowsOf_runOp
    {op : Op}
    (file : Option String)
    (hPlain : op.Plain) :
    rowsOf (runOp file op).1 =
      ((op.edit (rowsOf file)).1).getD (rowsOf file) := by
  unfold runOp
  split
  · rename_i hPasses
    rw [edit_of_passes hPasses]
    rfl
  · split
    · rename_i written out hEdit
      have hSafe : Storable written :=
        (storable_rowsOf file).edit hPlain (by rw [hEdit])
      rw [hEdit]
      exact parseRegistry_serialize hSafe
    · rename_i out hEdit
      rw [hEdit]
      rfl

end Instances
