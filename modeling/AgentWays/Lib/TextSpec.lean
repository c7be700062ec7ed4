import AgentWays.Lib.RustText
import Mathlib.Data.List.Lemmas
import Mathlib.Data.List.TakeWhile
import Mathlib.Data.List.Infix

/-
  What the text operations do to a text put together from
  parts.

  A text that was written is a run of parts with separators
  between them. Each lemma below takes one part off again:
  what is before the first separator, what a fixed start or
  end was added to, what is between the spaces around a line,
  and the lines of a text.

  Main declarations:
    * `RustText.splitOnce_append`
    * `RustText.splitOnce_eq_some`
    * `RustText.stripPrefix_append`
    * `RustText.stripSuffix_append`
    * `RustText.trim_eq_self`
    * `RustText.lines_append`
    * `RustText.lines_join`
-/

------------------------------------------------------------
-- Parts
------------------------------------------------------------

namespace RustText

theorem takeWhile_append_cons
    {c : Char}
    {a b : List Char}
    (hOut : c ∉ a) :
    (a ++ c :: b).takeWhile (· ≠ c) = a := by
  induction a with
  | nil => simp
  | cons x a ih =>
      simp only [List.mem_cons, not_or] at hOut
      have hNe : x ≠ c := Ne.symm hOut.1
      rw [List.cons_append,
        List.takeWhile_cons_of_pos (by simpa using hNe),
        ih hOut.2]

theorem dropWhile_append_cons
    {c : Char}
    {a b : List Char}
    (hOut : c ∉ a) :
    (a ++ c :: b).dropWhile (· ≠ c) = c :: b := by
  induction a with
  | nil => simp
  | cons x a ih =>
      simp only [List.mem_cons, not_or] at hOut
      have hNe : x ≠ c := Ne.symm hOut.1
      rw [List.cons_append,
        List.dropWhile_cons_of_pos (by simpa using hNe),
        ih hOut.2]

/- The text before the first separator, and the rest. -/
theorem splitOnce_append
    {a b sep : String}
    {c : Char}
    (hSep : sep.toList = [c])
    (hOut : c ∉ a.toList) :
    splitOnce (a ++ sep ++ b) c = some (a, b) := by
  have hText : (a ++ sep ++ b).toList =
      a.toList ++ c :: b.toList := by
    simp [hSep]
  unfold splitOnce
  rw [hText, dropWhile_append_cons hOut,
    takeWhile_append_cons hOut]
  simp

/- A text that splits was put together so. -/
theorem splitOnce_eq_some
    {s a b : String}
    {c : Char}
    (hSplit : splitOnce s c = some (a, b)) :
    s.toList = a.toList ++ c :: b.toList ∧
      c ∉ a.toList := by
  unfold splitOnce at hSplit
  have hParts :=
    List.takeWhile_append_dropWhile
      (p := fun x => decide (x ≠ c)) (l := s.toList)
  split at hSplit
  · cases hSplit
  · rename_i x rest hDrop
    simp only [Option.some.injEq, Prod.mk.injEq] at hSplit
    rcases hSplit with ⟨rfl, rfl⟩
    have hHead : x = c := by
      have hNot :=
        List.head_dropWhile_not (fun x => decide (x ≠ c))
          (by rw [hDrop]; simp)
      simp only [hDrop, List.head_cons] at hNot
      simpa using hNot
    subst hHead
    constructor
    · rw [hDrop] at hParts
      simpa using hParts.symm
    · intro hMem
      simp only [String.toList_ofList] at hMem
      have hAll := List.mem_takeWhile_imp hMem
      simp at hAll

theorem stripPrefix_append
    (head s : String) :
    stripPrefix (head ++ s) head = some s := by
  unfold stripPrefix
  have hPrefix :
      head.toList.isPrefixOf (head ++ s).toList = true := by
    rw [List.isPrefixOf_iff_prefix, String.toList_append]
    exact List.prefix_append _ _
  rw [if_pos hPrefix, String.toList_append,
    ← String.length_toList, List.drop_left]
  simp

theorem stripSuffix_append
    (s tail : String) :
    stripSuffix (s ++ tail) tail = some s := by
  unfold stripSuffix endsWith
  have hSuffix :
      tail.toList.isSuffixOf (s ++ tail).toList = true := by
    rw [List.isSuffixOf_iff_suffix, String.toList_append]
    exact List.suffix_append _ _
  rw [if_pos hSuffix, String.length_append,
    Nat.add_sub_cancel, String.toList_append,
    ← String.length_toList, List.take_left]
  simp

theorem startsWith_append
    (head s : String) :
    startsWith (head ++ s) head = true := by
  unfold startsWith
  rw [List.isPrefixOf_iff_prefix, String.toList_append]
  exact List.prefix_append _ _

end RustText

------------------------------------------------------------
-- Numbers
------------------------------------------------------------

namespace RustText

theorem toList_toString
    (n : Nat) :
    (toString n).toList = Nat.toDigits 10 n :=
  Nat.toList_repr

theorem isDigit_of_mem_toString
    {n : Nat}
    {c : Char}
    (hMem : c ∈ (toString n).toList) :
    c.isDigit = true := by
  rw [toList_toString] at hMem
  exact Nat.isDigit_of_mem_toDigits (by decide) (by decide)
    hMem

theorem digitsValue_toString
    (n : Nat) :
    digitsValue (toString n).toList = n := by
  have hFold :
      ∀ (l : List Char) (acc : Nat),
        l.foldl (fun n c => 10 * n + (c.toNat - 48)) acc =
          Nat.ofDigitChars 10 l acc := by
    intro l
    induction l with
    | nil =>
        intro acc
        rfl
    | cons c l ih =>
        intro acc
        rw [List.foldl_cons, ih, Nat.ofDigitChars_cons]
        rfl
  unfold digitsValue
  rw [hFold, toList_toString]
  exact Nat.ofDigitChars_ten_toDigits

theorem toString_ne_empty
    (n : Nat) :
    toString n ≠ "" := by
  intro hEmpty
  have hList : (toString n).toList = [] := by
    rw [hEmpty]
    rfl
  rw [toList_toString] at hList
  exact Nat.toDigits_ne_nil hList

/- A number is read back from its digits. -/
theorem parseUnsigned_toString
    {bits n : Nat}
    (hBound : n < 2 ^ bits) :
    parseUnsigned bits (toString n) = some n := by
  have hDigits :
      ∀ c ∈ (toString n).toList, c.isDigit = true :=
    fun c hMem => isDigit_of_mem_toString hMem
  have hEmpty : (toString n).toList.isEmpty = false := by
    rw [List.isEmpty_eq_false_iff]
    intro hNil
    exact toString_ne_empty n (String.toList_eq_nil_iff.mp hNil)
  have hAll :
      (toString n).toList.all Char.isDigit = true := by
    rw [List.all_eq_true]
    exact hDigits
  unfold parseUnsigned
  split
  · rename_i rest hSign
    have hPlus := hDigits '+' (by rw [hSign]; simp)
    exact absurd hPlus (by decide)
  · simp only [hEmpty, hAll, digitsValue_toString,
      Bool.not_true, Bool.or_self, Bool.false_eq_true,
      if_false, if_pos hBound]

theorem isAlphanum_iff
    {c : Char} :
    c.isAlphanum = true ↔
      ((0x41 ≤ c.toNat ∧ c.toNat ≤ 0x5A) ∨
        (0x61 ≤ c.toNat ∧ c.toNat ≤ 0x7A)) ∨
        (0x30 ≤ c.toNat ∧ c.toNat ≤ 0x39) := by
  change
    ((decide (c.val ≥ 'A'.val ∧ c.val ≤ 'Z'.val) ||
        (decide (c.val ≥ 'a'.val) && decide (c.val ≤ 'z'.val))) ||
        (decide (c.val ≥ '0'.val) && decide (c.val ≤ '9'.val))) =
      true ↔ _
  simp only [Bool.or_eq_true, Bool.and_eq_true,
    decide_eq_true_eq]
  rfl

theorem isWhitespace_of_isDigit
    {c : Char}
    (hDigit : c.isDigit = true) :
    isWhitespace c = false := by
  have hRange : 48 ≤ c.toNat ∧ c.toNat ≤ 57 := by
    simp only [Char.isDigit, Bool.and_eq_true,
      decide_eq_true_eq, UInt32.le_iff_toNat_le] at hDigit
    exact ⟨hDigit.1, hDigit.2⟩
  unfold isWhitespace
  simp only [Bool.or_eq_false_iff, Bool.and_eq_false_iff,
    decide_eq_false_iff_not, beq_eq_false_iff_ne]
  omega

end RustText

------------------------------------------------------------
-- The Ends Of A Text
------------------------------------------------------------

namespace RustText

/- The text does not start with whitespace. -/
def startsBare
    (s : String) : Bool :=
  s.toList.head?.all (fun c => !isWhitespace c)

/- The text does not end in whitespace. -/
def endsBare
    (s : String) : Bool :=
  s.toList.getLast?.all (fun c => !isWhitespace c)

theorem dropWhile_eq_self
    {p : Char → Bool}
    {l : List Char}
    (hHead : l.head?.all (fun c => !p c) = true) :
    l.dropWhile p = l := by
  cases l with
  | nil => rfl
  | cons c rest =>
      simp only [List.head?_cons, Option.all_some,
        Bool.not_eq_true'] at hHead
      exact List.dropWhile_cons_of_neg (by simp [hHead])

theorem head?_dropWhile
    (p : Char → Bool)
    (l : List Char) :
    (l.dropWhile p).head?.all (fun c => !p c) = true := by
  induction l with
  | nil => rfl
  | cons c rest ih =>
      by_cases hHead : p c = true
      · rw [List.dropWhile_cons_of_pos hHead]
        exact ih
      · rw [List.dropWhile_cons_of_neg hHead]
        simpa using hHead

theorem dropWhile_append_of_all
    {p : Char → Bool}
    {a : List Char}
    (b : List Char)
    (hAll : a.all p = true) :
    (a ++ b).dropWhile p = b.dropWhile p := by
  induction a with
  | nil => rfl
  | cons c a ih =>
      simp only [List.all_cons, Bool.and_eq_true] at hAll
      rw [List.cons_append,
        List.dropWhile_cons_of_pos hAll.1, ih hAll.2]

theorem trimStart_eq_self
    {s : String}
    (hStart : startsBare s = true) :
    trimStart s = s := by
  unfold trimStart
  rw [dropWhile_eq_self hStart, String.ofList_toList]

theorem trimStart_append
    {blank : String}
    (s : String)
    (hBlank : blank.toList.all isWhitespace = true) :
    trimStart (blank ++ s) = trimStart s := by
  unfold trimStart
  rw [String.toList_append,
    dropWhile_append_of_all s.toList hBlank]

theorem trim_append
    {blank : String}
    (s : String)
    (hBlank : blank.toList.all isWhitespace = true) :
    trim (blank ++ s) = trim s := by
  unfold trim
  rw [String.toList_append,
    dropWhile_append_of_all s.toList hBlank]

/- A text with neither end blank is trimmed already. -/
theorem trim_eq_self
    {s : String}
    (hStart : startsBare s = true)
    (hEnd : endsBare s = true) :
    trim s = s := by
  have hLast :
      s.toList.reverse.head?.all (fun c => !isWhitespace c) =
        true := by
    rw [List.head?_reverse]
    exact hEnd
  unfold trim
  rw [dropWhile_eq_self hStart, dropWhile_eq_self hLast,
    List.reverse_reverse, String.ofList_toList]

theorem trim_append_right
    {s blank : String}
    (hBlank : blank.toList.all isWhitespace = true)
    (hStart : startsBare s = true)
    (hEnd : endsBare s = true)
    (hFull : s ≠ "") :
    trim (s ++ blank) = s := by
  have hHead :
      (s ++ blank).toList.dropWhile isWhitespace =
        s.toList ++ blank.toList := by
    rw [String.toList_append]
    cases hChars : s.toList with
    | nil =>
        rw [String.toList_eq_nil_iff] at hChars
        exact absurd hChars hFull
    | cons c rest =>
        unfold startsBare at hStart
        rw [hChars] at hStart
        rw [List.cons_append, List.dropWhile_cons_of_neg]
        simpa using hStart
  have hBack : blank.toList.reverse.all isWhitespace = true := by
    rw [List.all_reverse, hBlank]
  have hLast :
      s.toList.reverse.head?.all (fun c => !isWhitespace c) =
        true := by
    rw [List.head?_reverse]
    exact hEnd
  unfold trim
  rw [hHead, List.reverse_append,
    dropWhile_append_of_all _ hBack, dropWhile_eq_self hLast,
    List.reverse_reverse, String.ofList_toList]

theorem endsBare_trim
    (s : String) :
    endsBare (trim s) = true := by
  unfold endsBare trim
  rw [String.toList_ofList, List.getLast?_reverse]
  exact head?_dropWhile _ _

theorem startsBare_trim
    (s : String) :
    startsBare (trim s) = true := by
  have hHead := head?_dropWhile isWhitespace s.toList
  have hSuffix :=
    (s.toList.dropWhile isWhitespace).reverse.dropWhile_suffix
      isWhitespace
  unfold startsBare trim
  rw [String.toList_ofList]
  rw [← List.reverse_prefix, List.reverse_reverse] at hSuffix
  rcases hSuffix with ⟨tail, hEq⟩
  rw [← hEq] at hHead
  cases hFront :
      ((s.toList.dropWhile isWhitespace).reverse.dropWhile
        isWhitespace).reverse with
  | nil => rfl
  | cons c front =>
      rw [hFront] at hHead
      exact hHead

theorem mem_of_mem_trim
    {s : String}
    {c : Char}
    (hMem : c ∈ (trim s).toList) :
    c ∈ s.toList := by
  unfold trim at hMem
  rw [String.toList_ofList, List.mem_reverse] at hMem
  have hInner := (List.dropWhile_suffix _).mem hMem
  rw [List.mem_reverse] at hInner
  exact (List.dropWhile_suffix _).mem hInner

/- A text before its own end of that character. -/
theorem trimEndMatches_append
    {s sep : String}
    {c : Char}
    (hSep : sep.toList = [c])
    (hEnd : s.toList.getLast? ≠ some c) :
    trimEndMatches (s ++ sep) c = s := by
  have hLast :
      s.toList.reverse.head?.all
        (fun x => !decide (x = c)) = true := by
    rw [List.head?_reverse]
    cases hGet : s.toList.getLast? with
    | none => rfl
    | some x =>
        rw [hGet] at hEnd
        simpa using hEnd
  unfold trimEndMatches
  rw [String.toList_append, hSep, List.reverse_append,
    List.reverse_singleton, List.singleton_append,
    List.dropWhile_cons_of_pos (by simp),
    dropWhile_eq_self hLast, List.reverse_reverse,
    String.ofList_toList]

theorem trimEndMatches_prefix
    (s : String)
    (c : Char) :
    (trimEndMatches s c).toList <+: s.toList := by
  unfold trimEndMatches
  rw [String.toList_ofList, ← List.reverse_suffix,
    List.reverse_reverse]
  exact List.dropWhile_suffix _

theorem getLast?_trimEndMatches
    (s : String)
    (c : Char) :
    (trimEndMatches s c).toList.getLast? ≠ some c := by
  have hHead :=
    head?_dropWhile (fun x => decide (x = c))
      s.toList.reverse
  unfold trimEndMatches
  rw [String.toList_ofList, List.getLast?_reverse]
  intro hLast
  rw [hLast] at hHead
  simp at hHead

theorem stripPrefix_eq_some
    {s head rest : String}
    (hStrip : stripPrefix s head = some rest) :
    s.toList = head.toList ++ rest.toList := by
  unfold stripPrefix at hStrip
  split at hStrip
  · rename_i hPrefix
    rw [List.isPrefixOf_iff_prefix] at hPrefix
    rcases hPrefix with ⟨tail, hTail⟩
    simp only [Option.some.injEq] at hStrip
    rw [← hStrip, String.toList_ofList, ← hTail,
      ← String.length_toList, List.drop_left]
  · cases hStrip

end RustText

------------------------------------------------------------
-- Values At The End Of A Line
------------------------------------------------------------

namespace RustText

/-
  A text that is read back whole when it ends a line that is
  then trimmed.
-/
structure TailSafe (s : String) : Prop where
  nonempty : s ≠ ""
  bare : endsBare s = true
  line : '\n' ∉ s.toList

theorem endsBare_append
    {s : String}
    (front : String)
    (hNonempty : s ≠ "")
    (hBare : endsBare s = true) :
    endsBare (front ++ s) = true := by
  unfold endsBare at hBare ⊢
  have hList : s.toList ≠ [] := by
    simpa using hNonempty
  rw [String.toList_append,
    List.getLast?_append_of_ne_nil _ hList]
  exact hBare

theorem startsBare_append
    {s : String}
    (back : String)
    (hNonempty : s ≠ "")
    (hBare : startsBare s = true) :
    startsBare (s ++ back) = true := by
  unfold startsBare at hBare ⊢
  have hList : s.toList ≠ [] := by
    simpa using hNonempty
  rw [String.toList_append,
    List.head?_append_of_ne_nil _ hList]
  exact hBare

theorem not_mem_append
    {a b : String}
    {c : Char}
    (hLeft : c ∉ a.toList)
    (hRight : c ∉ b.toList) :
    c ∉ (a ++ b).toList := by
  rw [String.toList_append, List.mem_append, not_or]
  exact ⟨hLeft, hRight⟩

/- A text whose characters are neither blank nor newlines. -/
theorem tailSafe_of_forall
    {s : String}
    (hNonempty : s ≠ "")
    (hChars :
      ∀ c ∈ s.toList, isWhitespace c = false) :
    TailSafe s := by
  refine ⟨hNonempty, ?_, ?_⟩
  · unfold endsBare
    cases hLast : s.toList.getLast? with
    | none => rfl
    | some c =>
        have hBlank :=
          hChars c (List.mem_of_getLast? hLast)
        simp [hBlank]
  · intro hMem
    have hBlank := hChars '\n' hMem
    revert hBlank
    decide

theorem splitOnceList_append
    {sep : List Char}
    {c : Char}
    {a : List Char}
    (b : List Char)
    (hOut : c ∉ a) :
    splitOnceList (c :: sep) (a ++ (c :: sep) ++ b) =
      some (a, b) := by
  induction a with
  | nil =>
      have hPrefix :
          (c :: sep).isPrefixOf (c :: (sep ++ b)) = true := by
        rw [List.isPrefixOf_iff_prefix]
        exact List.prefix_append (c :: sep) b
      rw [List.nil_append, List.cons_append, splitOnceList,
        if_pos hPrefix]
      simp
  | cons x a ih =>
      simp only [List.mem_cons, not_or] at hOut
      have hNot :
          ¬ (c :: sep).isPrefixOf
            (x :: (a ++ c :: sep ++ b)) = true := by
        intro hPrefix
        rw [List.isPrefixOf_iff_prefix] at hPrefix
        rcases hPrefix with ⟨tail, hEq⟩
        simp only [List.cons_append,
          List.cons.injEq] at hEq
        exact hOut.1 hEq.1
      rw [List.cons_append, List.cons_append, splitOnceList,
        if_neg hNot, ih hOut.2]
      rfl

/- A key before a separator whose start it does not hold. -/
theorem splitOnceStr_append
    {key sep : String}
    {c : Char}
    {more : List Char}
    (value : String)
    (hSep : sep.toList = c :: more)
    (hOut : c ∉ key.toList) :
    splitOnceStr (key ++ sep ++ value) sep =
      some (key, value) := by
  unfold splitOnceStr
  rw [String.toList_append, String.toList_append, hSep,
    splitOnceList_append _ hOut]
  simp

theorem replaceList_eq_self
    {c : Char}
    {old new : List Char}
    {s : List Char}
    (fuel : Nat)
    (hOut : c ∉ s) :
    replaceList (c :: old) new fuel s = s := by
  induction fuel generalizing s with
  | zero => rfl
  | succ fuel ih =>
      cases s with
      | nil => rfl
      | cons x rest =>
          simp only [List.mem_cons, not_or] at hOut
          have hNot :
              ¬ (c :: old).isPrefixOf (x :: rest) =
                true := by
            intro hPrefix
            rw [List.isPrefixOf_iff_prefix] at hPrefix
            rcases hPrefix with ⟨tail, hEq⟩
            simp only [List.cons_append,
              List.cons.injEq] at hEq
            exact hOut.1 hEq.1
          rw [replaceList, if_neg hNot, ih hOut.2]

/- Nothing to replace where a pattern cannot start. -/
theorem replace_eq_self
    {s old : String}
    {c : Char}
    {more : List Char}
    (new : String)
    (hOld : old.toList = c :: more)
    (hOut : c ∉ s.toList) :
    replace s old new = s := by
  unfold replace
  rw [hOld, replaceList_eq_self _ hOut,
    String.ofList_toList]

end RustText

------------------------------------------------------------
-- Lines
------------------------------------------------------------

namespace RustText

theorem linesFrom_append
    {line : List Char}
    (rest acc : List Char)
    (hLine : '\n' ∉ line) :
    linesFrom (line ++ '\n' :: rest) acc =
      stripReturn (acc.reverse ++ line) ::
        linesFrom rest [] := by
  induction line generalizing acc with
  | nil => simp [linesFrom]
  | cons c line ih =>
      simp only [List.mem_cons, not_or] at hLine
      rw [List.cons_append, linesFrom,
        if_neg (Ne.symm hLine.1), ih (c :: acc) hLine.2,
        List.reverse_cons, List.append_assoc,
        List.singleton_append]

theorem stripReturn_eq_self
    {line : List Char}
    (hEnd : line.getLast? ≠ some '\r') :
    stripReturn line = line := by
  unfold stripReturn
  split
  · rename_i rest hRev
    rw [← List.head?_reverse, hRev] at hEnd
    exact absurd rfl hEnd
  · rfl

theorem endsBare_not_return
    {s : String}
    (hEnd : endsBare s = true) :
    s.toList.getLast? ≠ some '\r' := by
  intro hLast
  rw [endsBare, hLast] at hEnd
  revert hEnd
  decide

/- The first line, when it holds no newline or return. -/
theorem lines_append_of_not_return
    {line : String}
    (rest : String)
    (hLine : '\n' ∉ line.toList)
    (hEnd : line.toList.getLast? ≠ some '\r') :
    lines (line ++ "\n" ++ rest) = line :: lines rest := by
  have hText : (line ++ "\n" ++ rest).toList =
      line.toList ++ '\n' :: rest.toList := by
    simp
  unfold lines
  rw [hText, linesFrom_append _ _ hLine, List.reverse_nil,
    List.nil_append, stripReturn_eq_self hEnd,
    List.map_cons, String.ofList_toList]

/- The first line, when it has no newline and no blank end. -/
theorem lines_append
    {line : String}
    (rest : String)
    (hLine : '\n' ∉ line.toList)
    (hEnd : endsBare line = true) :
    lines (line ++ "\n" ++ rest) = line :: lines rest :=
  lines_append_of_not_return rest hLine
    (endsBare_not_return hEnd)

/- A text of lines, each with its newline, is those lines. -/
theorem lines_join
    {content : List String}
    (hLines : ∀ line ∈ content, '\n' ∉ line.toList) :
    lines (String.join (content.map (fun l => l ++ "\n"))) =
      content.map
        (fun l => String.ofList (stripReturn l.toList)) := by
  induction content with
  | nil => rfl
  | cons line content ih =>
      have hTail : ∀ l ∈ content, '\n' ∉ l.toList := by
        intro l hMem
        exact hLines l (List.mem_cons_of_mem _ hMem)
      have hText :
          (line ++ "\n" ++
            String.join
              (content.map (fun l => l ++ "\n"))).toList =
          line.toList ++ '\n' ::
            (String.join
              (content.map (fun l => l ++ "\n"))).toList := by
        simp
      have hRest := ih hTail
      unfold lines at hRest ⊢
      rw [List.map_cons, String.join_cons, hText,
        linesFrom_append _ _ (hLines line (by simp)),
        List.map_cons, List.map_cons, hRest]
      rfl

theorem head?_stripReturn
    {line : List Char}
    {c : Char}
    (hHead : line.head? = some c)
    (hOther : c ≠ '\r') :
    (stripReturn line).head? = some c := by
  unfold stripReturn
  split
  · rename_i rest hRev
    have hLine : line = rest.reverse ++ ['\r'] := by
      rw [← List.reverse_reverse line, hRev,
        List.reverse_cons]
    rw [hLine] at hHead
    cases hFront : rest.reverse with
    | nil =>
        rw [hFront] at hHead
        simp only [List.nil_append, List.head?_cons,
          Option.some.injEq] at hHead
        exact absurd hHead.symm hOther
    | cons x front =>
        rw [hFront] at hHead
        exact hHead
  · exact hHead

theorem mem_of_mem_stripReturn
    {line : List Char}
    {c : Char}
    (hMem : c ∈ stripReturn line) :
    c ∈ line := by
  unfold stripReturn at hMem
  split at hMem
  · rename_i rest hRev
    rw [List.mem_reverse] at hMem
    rw [← List.mem_reverse, hRev]
    exact List.mem_cons_of_mem _ hMem
  · exact hMem

theorem newline_not_mem_linesFrom
    (text acc : List Char)
    (hAcc : '\n' ∉ acc) :
    ∀ line ∈ linesFrom text acc, '\n' ∉ line := by
  induction text generalizing acc with
  | nil =>
      intro line hMem
      unfold linesFrom at hMem
      split at hMem
      · cases hMem
      · rw [List.mem_singleton] at hMem
        rw [hMem, List.mem_reverse]
        exact hAcc
  | cons c text ih =>
      intro line hMem
      unfold linesFrom at hMem
      split at hMem
      · rcases List.mem_cons.mp hMem with hHead | hTail
        · intro hIn
          rw [hHead] at hIn
          exact hAcc
            (List.mem_reverse.mp (mem_of_mem_stripReturn hIn))
        · exact ih [] (by simp) line hTail
      · rename_i hChar
        apply ih (c :: acc) _ line hMem
        simp only [List.mem_cons, not_or]
        exact ⟨Ne.symm hChar, hAcc⟩

theorem newline_not_mem_lines
    {s line : String}
    (hMem : line ∈ lines s) :
    '\n' ∉ line.toList := by
  unfold lines at hMem
  rcases List.mem_map.mp hMem with ⟨chars, hChars, rfl⟩
  rw [String.toList_ofList]
  exact newline_not_mem_linesFrom _ _ (by simp) chars hChars

/- A text contains what lies in it. -/
theorem contains_iff_infix
    {s pattern : String} :
    contains s pattern = true ↔
      pattern.toList <:+: s.toList := by
  unfold contains
  rw [List.any_eq_true]
  constructor
  · rintro ⟨tail, hTail, hPrefix⟩
    rw [List.mem_tails] at hTail
    exact (List.isPrefixOf_iff_prefix.mp hPrefix).isInfix.trans
      hTail.isInfix
  · rintro ⟨front, back, hParts⟩
    refine ⟨pattern.toList ++ back, ?_, ?_⟩
    · rw [List.mem_tails, ← hParts, List.append_assoc]
      exact List.suffix_append _ _
    · rw [List.isPrefixOf_iff_prefix]
      exact List.prefix_append _ _

theorem isPrefix_stripReturn
    (line : List Char) :
    stripReturn line <+: line := by
  unfold stripReturn
  split
  · rename_i rest hRev
    rw [← List.reverse_suffix, hRev, List.reverse_reverse]
    exact List.suffix_cons _ _
  · exact List.prefix_refl line

theorem infix_of_mem_linesFrom
    (text acc : List Char) :
    ∀ line ∈ linesFrom text acc,
      line <:+: acc.reverse ++ text := by
  induction text generalizing acc with
  | nil =>
      intro line hMem
      rw [linesFrom] at hMem
      split at hMem
      · cases hMem
      · rw [List.mem_singleton] at hMem
        rw [hMem, List.append_nil]
  | cons c rest ih =>
      intro line hMem
      rw [linesFrom] at hMem
      split at hMem
      · rcases List.mem_cons.mp hMem with rfl | hTail
        · exact (isPrefix_stripReturn _).isInfix.trans
            (List.prefix_append _ _).isInfix
        · have hRest := ih [] line hTail
          rw [List.reverse_nil, List.nil_append] at hRest
          exact hRest.trans
            ((List.suffix_cons c rest).trans
              (List.suffix_append _ _)).isInfix
      · have hRest := ih (c :: acc) line hMem
        rw [List.reverse_cons, List.append_assoc,
          List.singleton_append] at hRest
        exact hRest

theorem infix_of_mem_lines
    {s line : String}
    (hMem : line ∈ lines s) :
    line.toList <:+: s.toList := by
  unfold lines at hMem
  rcases List.mem_map.mp hMem with ⟨chars, hChars, rfl⟩
  rw [String.toList_ofList]
  exact infix_of_mem_linesFrom s.toList [] chars hChars

theorem isInfix_trim
    (s : String) :
    (trim s).toList <:+: s.toList := by
  unfold trim
  rw [String.toList_ofList]
  have hBack :
      ((s.toList.dropWhile isWhitespace).reverse.dropWhile
          isWhitespace).reverse <+:
        s.toList.dropWhile isWhitespace := by
    rw [← List.reverse_suffix, List.reverse_reverse]
    exact List.dropWhile_suffix _
  exact hBack.isInfix.trans (List.dropWhile_suffix _).isInfix

end RustText
