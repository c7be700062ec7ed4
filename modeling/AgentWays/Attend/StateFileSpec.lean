import AgentWays.Attend.StateFile
import AgentWays.Attend.SignalSpec
import Mathlib.Data.Finset.Basic
import Mathlib.Data.Finset.Sort

/-
  The state file reads back as it was written.

  A key is escaped and a text is not, so a text with a
  newline, or one that is empty or ends in whitespace, comes
  back as another or as a field of its own. Where every text
  is safe at the end of its line the file is the snapshot.

  Key definitions include:
    * `Attend.KeySafe`
    * `Attend.StateSnapshot.Safe`

  Main declarations:
    * `Attend.readStateLine_field`
    * `Attend.deserialize_serialize`
    * `Attend.keySafe_signalFilename`
-/

------------------------------------------------------------
-- One Line
------------------------------------------------------------

namespace Attend

open RustText

/- A key that ends its line and needs no escape. -/
structure KeySafe (key : String) : Prop extends
    TailSafe key where
  escape : '\\' ∉ key.toList

/- The name of a field, as the reader splits it off. -/
structure FieldName (key : String) : Prop where
  nonempty : key ≠ ""
  start : startsBare key = true
  colon : ':' ∉ key.toList
  line : '\n' ∉ key.toList

/- A field's line gives its name and its value. -/
theorem readStateLine_field
    {key value : String}
    (s : StateSnapshot)
    (hKey : FieldName key)
    (hValue : TailSafe value) :
    readStateLine s (key ++ ": " ++ value) =
      readField s key value := by
  have hStart : startsBare (key ++ ": " ++ value) = true := by
    rw [String.append_assoc]
    exact startsBare_append _ hKey.nonempty hKey.start
  have hEnd : endsBare (key ++ ": " ++ value) = true :=
    endsBare_append _ hValue.nonempty hValue.bare
  unfold readStateLine
  rw [trim_eq_self hStart hEnd,
    splitOnceStr_append value rfl hKey.colon]

/- What a line must be to reach the reader as it is. -/
structure WholeLine (line : String) : Prop where
  bare : endsBare line = true
  line : '\n' ∉ line.toList

theorem wholeLine_field
    {key value : String}
    (hKey : FieldName key)
    (hValue : TailSafe value) :
    WholeLine (key ++ ": " ++ value) := by
  refine ⟨endsBare_append _ hValue.nonempty hValue.bare, ?_⟩
  exact not_mem_append
    (not_mem_append hKey.line (by decide)) hValue.line

theorem wholeLine_of_mem_fieldLine
    {key line : String}
    {value : Option String}
    (hKey : FieldName key)
    (hValue : ∀ v ∈ value, TailSafe v)
    (hMem : line ∈ fieldLine key value) :
    WholeLine line := by
  unfold fieldLine at hMem
  rw [List.mem_map] at hMem
  rcases hMem with ⟨v, hIn, rfl⟩
  exact wholeLine_field hKey
    (hValue v (Option.mem_toList.mp hIn))

/- The line of a field that may have none. -/
theorem foldl_fieldLine
    {key : String}
    {value : Option String}
    (s : StateSnapshot)
    (hKey : FieldName key)
    (hValue : ∀ v ∈ value, TailSafe v) :
    (fieldLine key value).foldl readStateLine s =
      (value.map (readField s key)).getD s := by
  cases value with
  | none => rfl
  | some v =>
      simp only [fieldLine, Option.toList_some,
        List.map_cons, List.map_nil, List.foldl_cons,
        List.foldl_nil, Option.map_some, Option.getD_some]
      exact readStateLine_field s hKey (hValue v rfl)

end Attend

------------------------------------------------------------
-- The Values
------------------------------------------------------------

namespace Attend

open RustText

theorem tailSafe_toString
    (n : Nat) :
    TailSafe (toString n) := by
  apply tailSafe_of_forall (toString_ne_empty n)
  intro c hMem
  exact isWhitespace_of_isDigit
    (isDigit_of_mem_toString hMem)

theorem tailSafe_formatPct
    (tenths : Nat) :
    TailSafe (formatPct tenths) := by
  apply tailSafe_of_forall
  · simp [formatPct]
  · intro c hMem
    simp only [formatPct, String.toList_append,
      List.mem_append] at hMem
    rcases hMem with (hWhole | hDot) | hTenth
    · exact isWhitespace_of_isDigit
        (isDigit_of_mem_toString hWhole)
    · have hPlain :
          ".".toList.all (fun c => !isWhitespace c) = true := by
        decide
      simpa using List.all_eq_true.mp hPlain c hDot
    · exact isWhitespace_of_isDigit
        (isDigit_of_mem_toString hTenth)

theorem not_mem_toString
    {c : Char}
    (n : Nat)
    (hNot : c.isDigit = false) :
    c ∉ (toString n).toList := by
  intro hMem
  rw [isDigit_of_mem_toString hMem] at hNot
  cases hNot

theorem length_toString_digit
    {n : Nat}
    (hDigit : n < 10) :
    (toString n).length = 1 := by
  rw [← String.length_toList, toList_toString,
    Nat.toDigits_of_lt_base hDigit]
  rfl

/- A percentage is read back from its one decimal. -/
theorem parsePct_formatPct
    (tenths : Nat) :
    parsePct (formatPct tenths) = some tenths := by
  have hDigit : tenths % 10 < 10 :=
    Nat.mod_lt _ (by decide)
  have hWhole :
      (toString (tenths / 10)).toList.all Char.isDigit =
        true := by
    rw [List.all_eq_true]
    intro c hMem
    exact isDigit_of_mem_toString hMem
  have hTenth :
      (toString (tenths % 10)).toList.all Char.isDigit =
        true := by
    rw [List.all_eq_true]
    intro c hMem
    exact isDigit_of_mem_toString hMem
  have hFull : (toString (tenths / 10)).isEmpty = false := by
    rw [Bool.eq_false_iff]
    intro hEmpty
    exact toString_ne_empty _ (String.isEmpty_iff.mp hEmpty)
  unfold parsePct formatPct
  rw [splitOnce_append rfl (not_mem_toString _ (by decide))]
  simp only [hWhole, hTenth, hFull,
    length_toString_digit hDigit, digitsValue_toString,
    Bool.not_false, Bool.and_self, beq_self_eq_true, if_true]
  rw [Nat.div_add_mod]

theorem mem_intercalate
    {c x : Char}
    {parts : List (List Char)}
    (hMem : c ∈ [x].intercalate parts) :
    c = x ∨ ∃ part ∈ parts, c ∈ part := by
  induction parts with
  | nil => simp at hMem
  | cons part parts ih =>
      cases parts with
      | nil =>
          rw [List.intercalate_singleton] at hMem
          exact Or.inr ⟨part, by simp, hMem⟩
      | cons next rest =>
          rw [List.intercalate_cons_cons, List.mem_append,
            List.mem_append, List.mem_singleton] at hMem
          rcases hMem with (hPart | hSep) | hRest
          · exact Or.inr ⟨part, by simp, hPart⟩
          · exact Or.inl hSep
          · rcases ih hRest with hSep | ⟨p, hIn, hChar⟩
            · exact Or.inl hSep
            · exact Or.inr
                ⟨p, List.mem_cons_of_mem _ hIn, hChar⟩

theorem toList_joinThresholds
    (thresholds : List UInt8) :
    (joinThresholds thresholds).toList =
      [','].intercalate
        (thresholds.map
          (fun t => (toString t.toNat).toList)) := by
  unfold joinThresholds
  rw [String.toList_intercalate, List.map_map]
  rfl

theorem tailSafe_joinThresholds
    {thresholds : List UInt8}
    (hSome : thresholds ≠ []) :
    TailSafe (joinThresholds thresholds) := by
  apply tailSafe_of_forall
  · intro hEmpty
    have hList := toList_joinThresholds thresholds
    rw [hEmpty] at hList
    cases thresholds with
    | nil => exact hSome rfl
    | cons t rest =>
        have hDigits := toString_ne_empty t.toNat
        cases rest with
        | nil =>
            rw [List.map_singleton,
              List.intercalate_singleton] at hList
            exact hDigits
              (String.toList_eq_nil_iff.mp hList.symm)
        | cons u rest =>
            rw [List.map_cons, List.map_cons,
              List.intercalate_cons_cons] at hList
            simp at hList
  · intro c hMem
    rw [toList_joinThresholds] at hMem
    rcases mem_intercalate hMem with hSep | ⟨part, hIn, hChar⟩
    · rw [hSep]
      decide
    · rw [List.mem_map] at hIn
      rcases hIn with ⟨t, -, rfl⟩
      exact isWhitespace_of_isDigit
        (isDigit_of_mem_toString hChar)

theorem startsBare_toString
    (n : Nat) :
    startsBare (toString n) = true := by
  unfold startsBare
  cases hHead : (toString n).toList.head? with
  | none => rfl
  | some c =>
      have hMem := List.mem_of_head? hHead
      have hBlank :=
        isWhitespace_of_isDigit (isDigit_of_mem_toString hMem)
      simp [hBlank]

/- The thresholds are read back from their list. -/
theorem parseThresholds_join
    {thresholds : List UInt8}
    (hSome : thresholds ≠ []) :
    parseThresholds (joinThresholds thresholds) =
      thresholds := by
  have hSplit :
      split (joinThresholds thresholds) ',' =
        thresholds.map (fun t => toString t.toNat) := by
    unfold split
    rw [toList_joinThresholds, List.splitOn_intercalate]
    · rw [List.map_map]
      apply List.map_congr_left
      intro t _
      exact String.ofList_toList
    · intro part hIn
      rw [List.mem_map] at hIn
      rcases hIn with ⟨t, -, rfl⟩
      exact not_mem_toString _ (by decide)
    · simpa using hSome
  have hParse :
      (fun s => (parseUnsigned 8 (trim s)).map UInt8.ofNat) ∘
          (fun t : UInt8 => toString t.toNat) = some := by
    funext t
    rw [Function.comp_apply,
      trim_eq_self (startsBare_toString _)
        (tailSafe_toString _).bare,
      parseUnsigned_toString t.toNat_lt, Option.map_some,
      UInt8.ofNat_toNat]
  unfold parseThresholds
  rw [hSplit, List.filterMap_map, hParse,
    List.filterMap_some]

end Attend

------------------------------------------------------------
-- The Whole File
------------------------------------------------------------

namespace Attend

open RustText

/- Every text of the snapshot is safe where it is written. -/
structure StateSnapshot.Safe (s : StateSnapshot) : Prop where
  keys : ∀ k ∈ s.seenSignals, KeySafe k
  gitBranch : ∀ v ∈ s.gitBranch, TailSafe v
  gitHead : ∀ v ∈ s.gitHead, TailSafe v
  modVersion : ∀ v ∈ s.modVersion, TailSafe v
  modStaleNoted : ∀ v ∈ s.modStaleNoted, TailSafe v

/- The writer's escape leaves a safe key as it is. -/
theorem escape_eq_self
    {key : String}
    (hKey : KeySafe key) :
    replace key "\n" "\\n" = key :=
  replace_eq_self _ rfl hKey.line

theorem unescape_eq_self
    {key : String}
    (hKey : KeySafe key) :
    replace key "\\n" "\n" = key :=
  replace_eq_self _ rfl hKey.escape

theorem fieldName_of_decide
    {key : String}
    (hKey :
      (key ≠ "" ∧ startsBare key = true) ∧
        ':' ∉ key.toList ∧ '\n' ∉ key.toList) :
    FieldName key :=
  ⟨hKey.1.1, hKey.1.2, hKey.2.1, hKey.2.2⟩

/- The keys are read back one by one. -/
theorem foldl_seenKeys
    {keys : List String}
    (s : StateSnapshot)
    (hKeys : ∀ k ∈ keys, KeySafe k) :
    (keys.map (fun k => "seen_signal: " ++ k)).foldl
        readStateLine s =
      { s with
        seenSignals := s.seenSignals ∪ keys.toFinset } := by
  induction keys generalizing s with
  | nil =>
      rw [List.toFinset_nil, Finset.union_empty]
      rfl
  | cons k keys ih =>
      have hKey := hKeys k (by simp)
      have hRead :
          readStateLine s ("seen_signal: " ++ k) =
            { s with
              seenSignals := insert k s.seenSignals } := by
        have hLine :
            "seen_signal: " ++ k =
              "seen_signal" ++ ": " ++ k := by
          rfl
        rw [hLine, readStateLine_field s
          (fieldName_of_decide (by decide)) hKey.toTailSafe]
        unfold readField
        rw [if_pos rfl, unescape_eq_self hKey]
      rw [List.map_cons, List.foldl_cons, hRead, ih]
      · simp only [List.toFinset_cons, Finset.insert_union,
          Finset.union_insert]
      · intro k hMem
        exact hKeys k (List.mem_cons_of_mem _ hMem)

theorem map_escape
    {seen : Finset String}
    (order : HashOrder)
    (hKeys : ∀ k ∈ seen, KeySafe k) :
    (order.iter seen).map (fun s => replace s "\n" "\\n") =
      order.iter seen := by
  conv_rhs => rw [← List.map_id (order.iter seen)]
  apply List.map_congr_left
  intro k hMem
  apply escape_eq_self
  apply hKeys
  rw [← order.toFinset seen, List.mem_toFinset]
  exact hMem

theorem readField_count
    (s : StateSnapshot)
    (value : String) :
    readField s "seen_signal_count" value = s := by
  simp [readField]

theorem readField_version
    (s : StateSnapshot)
    (value : String) :
    readField s "version" value = s := by
  simp [readField]

theorem foldl_seenLines
    {seen : Finset String}
    (order : HashOrder)
    (hKeys : ∀ k ∈ seen, KeySafe k) :
    (seenLines order seen).foldl readStateLine
        StateSnapshot.default =
      { StateSnapshot.default with
        seenSignals := seen } := by
  have hIter := map_escape order hKeys
  have hSafe : ∀ k ∈ order.iter seen, KeySafe k := by
    intro k hMem
    apply hKeys
    rw [← order.toFinset seen, List.mem_toFinset]
    exact hMem
  unfold seenLines
  dsimp only
  rw [hIter]
  by_cases hNone : (order.iter seen).isEmpty = true
  · have hEmpty : seen = ∅ := by
      rw [← order.toFinset seen,
        List.isEmpty_iff.mp hNone]
      rfl
    rw [if_pos hNone, hEmpty]
    rfl
  · have hCount :
        readStateLine StateSnapshot.default
            ("seen_signal_count: " ++
              toString (order.iter seen).length) =
          StateSnapshot.default := by
      have hLine :
          "seen_signal_count: " ++
              toString (order.iter seen).length =
            "seen_signal_count" ++ ": " ++
              toString (order.iter seen).length := by
        rfl
      rw [hLine, readStateLine_field _
        (fieldName_of_decide (by decide))
        (tailSafe_toString _), readField_count]
    rw [if_neg hNone, List.foldl_cons, hCount,
      foldl_seenKeys _ hSafe, order.toFinset seen]
    simp [StateSnapshot.default]

end Attend

------------------------------------------------------------
-- The Round Trip
------------------------------------------------------------

namespace Attend

open RustText

/- The values of the snapshot's lines are safe. -/
theorem tailSafe_thresholds
    (s : StateSnapshot) :
    ∀ v ∈ (if s.disclosedThresholds.isEmpty then none
      else some (joinThresholds s.disclosedThresholds)),
      TailSafe v := by
  intro v hMem
  split at hMem
  · cases hMem
  · rename_i hSome
    rw [Option.mem_some_iff] at hMem
    rw [← hMem]
    apply tailSafe_joinThresholds
    simpa using hSome

theorem tailSafe_pct
    (s : StateSnapshot) :
    ∀ v ∈ s.contextPct.map formatPct, TailSafe v := by
  intro v hMem
  rw [Option.mem_def, Option.map_eq_some_iff] at hMem
  rcases hMem with ⟨tenths, -, rfl⟩
  exact tailSafe_formatPct tenths

theorem tailSafe_hint
    (s : StateSnapshot) :
    ∀ v ∈ some (toString s.replyHintShown), TailSafe v := by
  intro v hMem
  rw [Option.mem_some_iff] at hMem
  rw [← hMem]
  cases s.replyHintShown with
  | true => exact ⟨by decide, by decide, by decide⟩
  | false => exact ⟨by decide, by decide, by decide⟩

theorem tailSafe_baselined
    (s : StateSnapshot) :
    ∀ v ∈ (if s.baselined then some "true" else none),
      TailSafe v := by
  intro v hMem
  split at hMem
  · rw [Option.mem_some_iff] at hMem
    rw [← hMem]
    exact ⟨by decide, by decide, by decide⟩
  · cases hMem

theorem tailSafe_version :
    ∀ v ∈ some packageVersion, TailSafe v := by
  intro v hMem
  rw [Option.mem_some_iff] at hMem
  rw [← hMem]
  exact ⟨by decide, by decide, by decide⟩

theorem wholeLine_named
    {value : String}
    (key : String)
    (hKey :
      (key ≠ "" ∧ startsBare key = true) ∧
        ':' ∉ key.toList ∧ '\n' ∉ key.toList)
    (hValue : TailSafe value) :
    WholeLine (key ++ ": " ++ value) :=
  wholeLine_field (fieldName_of_decide hKey) hValue

theorem wholeLine_seenLines
    {seen : Finset String}
    {order : HashOrder}
    {line : String}
    (hKeys : ∀ k ∈ seen, KeySafe k)
    (hMem : line ∈ seenLines order seen) :
    WholeLine line := by
  have hIter := map_escape order hKeys
  unfold seenLines at hMem
  dsimp only at hMem
  rw [hIter] at hMem
  split at hMem
  · cases hMem
  · rcases List.mem_cons.mp hMem with hCount | hSignal
    · rw [hCount]
      exact wholeLine_named "seen_signal_count" (by decide)
        (tailSafe_toString _)
    · rw [List.mem_map] at hSignal
      rcases hSignal with ⟨k, hIn, rfl⟩
      have hSeen : k ∈ seen := by
        rw [← order.toFinset seen, List.mem_toFinset]
        exact hIn
      exact wholeLine_named "seen_signal" (by decide)
        (hKeys k hSeen).toTailSafe

/- Every line of a safe snapshot reaches the reader whole. -/
theorem wholeLine_lines
    {s : StateSnapshot}
    {order : HashOrder}
    {line : String}
    (hSafe : s.Safe)
    (hMem : line ∈ s.lines order) :
    WholeLine line := by
  simp only [StateSnapshot.lines, List.mem_append] at hMem
  rcases hMem with
    ((((((((hSeen | hThresholds) | hPct) | hHint) | hBranch) |
      hHead) | hBase) | hMod) | hNoted) | hVersion
  · exact wholeLine_seenLines hSafe.keys hSeen
  · exact wholeLine_of_mem_fieldLine
      (fieldName_of_decide (by decide))
      (tailSafe_thresholds s) hThresholds
  · exact wholeLine_of_mem_fieldLine
      (fieldName_of_decide (by decide))
      (tailSafe_pct s) hPct
  · exact wholeLine_of_mem_fieldLine
      (fieldName_of_decide (by decide))
      (tailSafe_hint s) hHint
  · exact wholeLine_of_mem_fieldLine
      (fieldName_of_decide (by decide))
      hSafe.gitBranch hBranch
  · exact wholeLine_of_mem_fieldLine
      (fieldName_of_decide (by decide))
      hSafe.gitHead hHead
  · exact wholeLine_of_mem_fieldLine
      (fieldName_of_decide (by decide))
      (tailSafe_baselined s) hBase
  · exact wholeLine_of_mem_fieldLine
      (fieldName_of_decide (by decide))
      hSafe.modVersion hMod
  · exact wholeLine_of_mem_fieldLine
      (fieldName_of_decide (by decide))
      hSafe.modStaleNoted hNoted
  · exact wholeLine_of_mem_fieldLine
      (fieldName_of_decide (by decide))
      tailSafe_version hVersion

theorem lines_serialize
    {s : StateSnapshot}
    (order : HashOrder)
    (hSafe : s.Safe) :
    RustText.lines (s.serialize order) = s.lines order := by
  unfold StateSnapshot.serialize
  rw [lines_join
    (fun line hMem => (wholeLine_lines hSafe hMem).line)]
  conv_rhs => rw [← List.map_id (s.lines order)]
  apply List.map_congr_left
  intro line hMem
  rw [stripReturn_eq_self
    (endsBare_not_return (wholeLine_lines hSafe hMem).bare)]
  exact String.ofList_toList

/- What each field's line does to what is read so far. -/
theorem read_thresholds
    {t : StateSnapshot}
    (thresholds : List UInt8)
    (hNone : t.disclosedThresholds = []) :
    ((if thresholds.isEmpty then none
        else some (joinThresholds thresholds)).map
          (readField t "disclosed_thresholds")).getD t =
      { t with disclosedThresholds := thresholds } := by
  by_cases hEmpty : thresholds = []
  · cases t
    simp only at hNone
    subst hNone hEmpty
    rfl
  · have hNot : ¬ thresholds.isEmpty = true := by
      simpa using hEmpty
    rw [if_neg hNot, Option.map_some, Option.getD_some]
    simp [readField, parseThresholds_join hEmpty]

theorem read_pct
    {t : StateSnapshot}
    (pct : Option Nat)
    (hNone : t.contextPct = none) :
    ((pct.map formatPct).map
        (readField t "context_pct")).getD t =
      { t with contextPct := pct } := by
  cases pct with
  | none =>
      cases t
      simp only at hNone
      subst hNone
      rfl
  | some tenths =>
      rw [Option.map_some, Option.map_some, Option.getD_some]
      simp [readField, parsePct_formatPct]

theorem read_hint
    (t : StateSnapshot)
    (shown : Bool) :
    ((some (toString shown)).map
        (readField t "reply_hint_shown")).getD t =
      { t with replyHintShown := shown } := by
  cases shown with
  | true => rfl
  | false => rfl

theorem read_gitBranch
    {t : StateSnapshot}
    (branch : Option String)
    (hNone : t.gitBranch = none) :
    (branch.map (readField t "git_branch")).getD t =
      { t with gitBranch := branch } := by
  cases branch with
  | none =>
      cases t
      simp only at hNone
      subst hNone
      rfl
  | some v => rfl

theorem read_gitHead
    {t : StateSnapshot}
    (head : Option String)
    (hNone : t.gitHead = none) :
    (head.map (readField t "git_head")).getD t =
      { t with gitHead := head } := by
  cases head with
  | none =>
      cases t
      simp only at hNone
      subst hNone
      rfl
  | some v => rfl

theorem read_baselined
    {t : StateSnapshot}
    (baselined : Bool)
    (hNone : t.baselined = false) :
    ((if baselined then some "true" else none).map
        (readField t "baselined")).getD t =
      { t with baselined := baselined } := by
  cases baselined with
  | true => rfl
  | false =>
      cases t
      simp only at hNone
      subst hNone
      rfl

theorem read_modVersion
    {t : StateSnapshot}
    (version : Option String)
    (hNone : t.modVersion = none) :
    (version.map (readField t "mod_version")).getD t =
      { t with modVersion := version } := by
  cases version with
  | none =>
      cases t
      simp only at hNone
      subst hNone
      rfl
  | some v => rfl

theorem read_modStaleNoted
    {t : StateSnapshot}
    (installed : Option String)
    (hNone : t.modStaleNoted = none) :
    (installed.map (readField t "mod_stale_noted")).getD t =
      { t with modStaleNoted := installed } := by
  cases installed with
  | none =>
      cases t
      simp only at hNone
      subst hNone
      rfl
  | some v => rfl

/- Each field is read over the ones before it. -/
theorem foldl_lines
    {s : StateSnapshot}
    (order : HashOrder)
    (hSafe : s.Safe) :
    (s.lines order).foldl readStateLine
      StateSnapshot.default = s := by
  unfold StateSnapshot.lines
  simp only [List.foldl_append]
  rw [foldl_seenLines order hSafe.keys]
  rw [foldl_fieldLine _ (fieldName_of_decide (by decide))
    (tailSafe_thresholds s), read_thresholds _ (by rfl)]
  dsimp only
  rw [foldl_fieldLine _ (fieldName_of_decide (by decide))
    (tailSafe_pct s), read_pct _ (by rfl)]
  dsimp only
  rw [foldl_fieldLine _ (fieldName_of_decide (by decide))
    (tailSafe_hint s), read_hint]
  dsimp only
  rw [foldl_fieldLine _ (fieldName_of_decide (by decide))
    hSafe.gitBranch, read_gitBranch _ (by rfl)]
  dsimp only
  rw [foldl_fieldLine _ (fieldName_of_decide (by decide))
    hSafe.gitHead, read_gitHead _ (by rfl)]
  dsimp only
  rw [foldl_fieldLine _ (fieldName_of_decide (by decide))
    (tailSafe_baselined s), read_baselined _ (by rfl)]
  dsimp only
  rw [foldl_fieldLine _ (fieldName_of_decide (by decide))
    hSafe.modVersion, read_modVersion _ (by rfl)]
  dsimp only
  rw [foldl_fieldLine _ (fieldName_of_decide (by decide))
    hSafe.modStaleNoted, read_modStaleNoted _ (by rfl)]
  dsimp only
  rw [foldl_fieldLine _ (fieldName_of_decide (by decide))
    tailSafe_version, Option.map_some, Option.getD_some,
    readField_version]

/- A safe snapshot is what its file reads as. -/
theorem deserialize_serialize
    {s : StateSnapshot}
    (order : HashOrder)
    (hSafe : s.Safe) :
    deserialize (s.serialize order) = s := by
  unfold deserialize
  rw [lines_serialize order hSafe, foldl_lines order hSafe]

theorem isIdChar_plain
    {c : Char}
    (hId : isIdChar c = true) :
    isWhitespace c = false ∧ c ≠ '\\' := by
  have hRange :
      (48 ≤ c.toNat ∧ c.toNat ≤ 57) ∨
        (65 ≤ c.toNat ∧ c.toNat ≤ 90) ∨
        (97 ≤ c.toNat ∧ c.toNat ≤ 122) ∨
        c.toNat = 45 ∨ c.toNat = 95 := by
    change
      ((decide (c.val ≥ 'A'.val ∧ c.val ≤ 'Z'.val) ||
              (decide (c.val ≥ 'a'.val) &&
                decide (c.val ≤ 'z'.val)) ||
            (decide (c.val ≥ '0'.val) &&
              decide (c.val ≤ '9'.val))) ||
          c == '-' || c == '_') = true at hId
    simp only [Bool.or_eq_true, Bool.and_eq_true,
      decide_eq_true_eq, UInt32.le_iff_toNat_le, beq_iff_eq,
      ge_iff_le] at hId
    rcases hId with
      (((hUpper | hLower) | hDigit) | hDash) | hLow
    · exact Or.inr (Or.inl hUpper)
    · exact Or.inr (Or.inr (Or.inl hLower))
    · exact Or.inl hDigit
    · rw [hDash]
      exact Or.inr (Or.inr (Or.inr (Or.inl rfl)))
    · rw [hLow]
      exact Or.inr (Or.inr (Or.inr (Or.inr rfl)))
  constructor
  · unfold isWhitespace
    simp only [Bool.or_eq_false_iff, Bool.and_eq_false_iff,
      decide_eq_false_iff_not, beq_eq_false_iff_ne]
    omega
  · intro hSlash
    rw [hSlash] at hRange
    revert hRange
    decide

/- A minted filename is a key that needs no care. -/
theorem keySafe_signalFilename
    (senderId : String)
    (nanos seq : Nat) :
    KeySafe (signalFilename senderId nanos seq) := by
  have hChars :
      ∀ c ∈ (signalFilename senderId nanos seq).toList,
        isIdChar c = true ∨ c ∈ ".signal".toList := by
    intro c hMem
    simp only [signalFilename, String.toList_append,
      List.mem_append] at hMem
    rcases hMem with
      ((((hSender | hDash) | hNanos) | hDash) | hSeq) | hExt
    · exact Or.inl (isIdChar_of_mem_sanitize hSender)
    · exact Or.inl (isIdChar_of_mem_hyphen hDash)
    · exact Or.inl (isIdChar_of_mem_toString hNanos)
    · exact Or.inl (isIdChar_of_mem_hyphen hDash)
    · exact Or.inl (isIdChar_of_mem_toString hSeq)
    · exact Or.inr hExt
  have hPlain :
      ∀ c ∈ (signalFilename senderId nanos seq).toList,
        isWhitespace c = false ∧ c ≠ '\\' := by
    intro c hMem
    rcases hChars c hMem with hId | hExt
    · exact isIdChar_plain hId
    · have hAll :
          ".signal".toList.all
            (fun c => !isWhitespace c && c != '\\') = true := by
        decide
      simpa using List.all_eq_true.mp hAll c hExt
  refine ⟨tailSafe_of_forall ?_ ?_, ?_⟩
  · simp [signalFilename]
  · intro c hMem
    exact (hPlain c hMem).1
  · intro hMem
    exact (hPlain '\\' hMem).2 rfl

end Attend
