import AgentWays.Lib.TextSpec
import AgentWays.Lib.Words

/-
  Numbers written in decimal: what the integer parser takes,
  numbers padded to a width, and their order as texts.

  Key definitions include:
    * `RustText.Decimal`

  Main declarations:
    * `RustText.parseUnsigned_iff`
    * `RustText.split_eq_iff`
    * `RustText.decimal_pad2`
    * `RustText.decimal_pad4`
    * `RustText.digits_lt_iff`
-/

------------------------------------------------------------
-- Digits
------------------------------------------------------------

namespace RustText

/- A text of digits alone. -/
def Digits
    (cs : List Char) : Prop :=
  ∀ c ∈ cs, c.isDigit = true

theorem Digits.append
    {cs ds : List Char}
    (hDigits : Digits cs)
    (hDigits' : Digits ds) :
    Digits (cs ++ ds) := by
  intro c hMem
  rcases List.mem_append.mp hMem with hLeft | hRight
  · exact hDigits c hLeft
  · exact hDigits' c hRight

theorem digits_toString
    (n : Nat) :
    Digits (toString n).toList :=
  fun _ hMem => isDigit_of_mem_toString hMem

theorem digits_replicate
    (n : Nat) :
    Digits (List.replicate n '0') := by
  intro c hMem
  rw [List.eq_of_mem_replicate hMem]
  decide

theorem digit_range
    {c : Char}
    (hDigit : c.isDigit = true) :
    48 ≤ c.toNat ∧ c.toNat ≤ 57 := by
  simp only [Char.isDigit, Bool.and_eq_true,
    decide_eq_true_eq, UInt32.le_iff_toNat_le] at hDigit
  exact ⟨hDigit.1, hDigit.2⟩

theorem digitsValue_snoc
    (cs : List Char)
    (c : Char) :
    digitsValue (cs ++ [c]) =
      10 * digitsValue cs + (c.toNat - 48) := by
  unfold digitsValue
  rw [List.foldl_append]
  rfl

theorem digitsValue_append
    (cs ds : List Char) :
    digitsValue (cs ++ ds) =
      digitsValue cs * 10 ^ ds.length + digitsValue ds := by
  induction ds using List.reverseRecOn with
  | nil => simp [digitsValue]
  | append_singleton ds c ih =>
      rw [← List.append_assoc, digitsValue_snoc,
        digitsValue_snoc, ih, List.length_append,
        List.length_singleton, Nat.pow_succ, Nat.mul_add,
        Nat.mul_comm 10 (_ * _), Nat.mul_assoc, Nat.add_assoc]

theorem digitsValue_cons
    (c : Char)
    (cs : List Char) :
    digitsValue (c :: cs) =
      (c.toNat - 48) * 10 ^ cs.length + digitsValue cs := by
  have hSplit := digitsValue_append [c] cs
  rw [List.singleton_append] at hSplit
  rw [hSplit]
  simp [digitsValue]

theorem digitsValue_replicate_append
    (n : Nat)
    (cs : List Char) :
    digitsValue (List.replicate n '0' ++ cs) =
      digitsValue cs := by
  induction n with
  | zero => rfl
  | succ n ih =>
      rw [List.replicate_succ, List.cons_append,
        digitsValue_cons, ih]
      simp

theorem digitsValue_lt
    {cs : List Char}
    (hDigits : Digits cs) :
    digitsValue cs < 10 ^ cs.length := by
  induction cs with
  | nil => decide
  | cons c cs ih =>
      have hRest :=
        ih (fun d hMem => hDigits d (List.mem_cons_of_mem c hMem))
      have hRange := digit_range (hDigits c List.mem_cons_self)
      have hDigit : c.toNat - 48 ≤ 9 := by omega
      have hHead := Nat.mul_le_mul_right (10 ^ cs.length) hDigit
      rw [digitsValue_cons, List.length_cons, Nat.pow_succ]
      omega

/- Digits of one length are ordered as their values are. -/
theorem digits_lt_iff
    {cs ds : List Char}
    (hDigits : Digits cs)
    (hDigits' : Digits ds)
    (hLength : cs.length = ds.length) :
    cs < ds ↔ digitsValue cs < digitsValue ds := by
  induction cs generalizing ds with
  | nil =>
      cases ds with
      | nil => simp
      | cons d ds => cases hLength
  | cons c cs ih =>
      cases ds with
      | nil => cases hLength
      | cons d ds =>
          have hRest : Digits cs := fun x hMem =>
            hDigits x (List.mem_cons_of_mem c hMem)
          have hRest' : Digits ds := fun x hMem =>
            hDigits' x (List.mem_cons_of_mem d hMem)
          have hSame : cs.length = ds.length := by
            simpa using hLength
          have hC := digit_range (hDigits c List.mem_cons_self)
          have hD := digit_range (hDigits' d List.mem_cons_self)
          have hLt := digitsValue_lt hRest
          have hLt' := digitsValue_lt hRest'
          have hOrder : c < d ↔ c.toNat < d.toNat := Iff.rfl
          have hEq : c = d ↔ c.toNat = d.toNat :=
            Char.toNat_inj.symm
          rw [List.cons_lt_cons_iff, ih hRest hRest' hSame,
            digitsValue_cons, digitsValue_cons, hSame, hOrder,
            hEq]
          rw [hSame] at hLt
          rcases Nat.lt_trichotomy c.toNat d.toNat with
            hLess | hSameDigit | hMore
          · have hStep : c.toNat - 48 + 1 ≤ d.toNat - 48 := by
              omega
            have hGrow :=
              Nat.mul_le_mul_right (10 ^ ds.length) hStep
            rw [Nat.add_mul] at hGrow
            constructor
            · intro _
              omega
            · intro _
              exact .inl hLess
          · rw [hSameDigit]
            omega
          · have hStep : d.toNat - 48 + 1 ≤ c.toNat - 48 := by
              omega
            have hGrow :=
              Nat.mul_le_mul_right (10 ^ ds.length) hStep
            rw [Nat.add_mul] at hGrow
            omega

end RustText

------------------------------------------------------------
-- Parsing
------------------------------------------------------------

namespace RustText

/- Digits, after a plus sign too, and their value. -/
def Decimal
    (cs : List Char)
    (n : Nat) : Prop :=
  ∃ digits,
    (cs = digits ∨ cs = '+' :: digits) ∧ digits ≠ [] ∧
      Digits digits ∧ n = digitsValue digits

theorem Decimal.not_mem
    {cs : List Char}
    {n : Nat}
    (hDecimal : Decimal cs n)
    {c : Char}
    (hDigit : c.isDigit = false)
    (hPlus : c ≠ '+') :
    c ∉ cs := by
  rcases hDecimal with ⟨digits, hSign, -, hDigits, -⟩
  intro hMem
  have hIn : c ∈ digits := by
    rcases hSign with rfl | rfl
    · exact hMem
    · rcases List.mem_cons.mp hMem with hHead | hRest
      · exact absurd hHead hPlus
      · exact hRest
  rw [hDigits c hIn] at hDigit
  cases hDigit

/- A text is cut at the first copy of a character one way. -/
theorem cut_inj
    {a a' b b' : List Char}
    {c : Char}
    (hSame : a ++ c :: b = a' ++ c :: b')
    (hOut : c ∉ a)
    (hOut' : c ∉ a') :
    a = a' ∧ b = b' := by
  have hHead := congrArg (List.takeWhile (· ≠ c)) hSame
  rw [takeWhile_append_cons hOut,
    takeWhile_append_cons hOut'] at hHead
  have hTail := congrArg (List.dropWhile (· ≠ c)) hSame
  rw [dropWhile_append_cons hOut,
    dropWhile_append_cons hOut'] at hTail
  exact ⟨hHead, (List.cons.inj hTail).2⟩

/- The integer parser takes decimals of its width. -/
theorem parseUnsigned_iff
    {bits n : Nat}
    {s : String} :
    parseUnsigned bits s = some n ↔
      Decimal s.toList n ∧ n < 2 ^ bits := by
  have hParse :
      ∀ digits : List Char,
        (if digits.isEmpty || !digits.all Char.isDigit then none
          else if digitsValue digits < 2 ^ bits then
            some (digitsValue digits)
          else none) = some n ↔
          digits ≠ [] ∧ Digits digits ∧
            n = digitsValue digits ∧ n < 2 ^ bits := by
    intro digits
    unfold Digits
    rw [← List.all_eq_true]
    cases hEmpty : digits.isEmpty with
    | true => simp [List.isEmpty_iff.mp hEmpty]
    | false =>
        have hSome : digits ≠ [] :=
          List.isEmpty_eq_false_iff.mp hEmpty
        cases hAll : digits.all Char.isDigit with
        | false => simp
        | true =>
            simp only [Bool.not_true, Bool.or_self,
              Bool.false_eq_true, if_false, true_and]
            split
            · rename_i hLt
              rw [Option.some.injEq]
              exact
                ⟨fun hEq => ⟨hSome, hEq.symm, hEq ▸ hLt⟩,
                  fun hAll => hAll.2.1.symm⟩
            · rename_i hLt
              simp only [reduceCtorEq, false_iff]
              rintro ⟨-, rfl, hBound⟩
              exact hLt hBound
  unfold parseUnsigned Decimal
  dsimp only
  split
  · rename_i rest hSign
    rw [hParse rest, hSign]
    constructor
    · rintro ⟨hSome, hDigits, hValue, hBound⟩
      exact ⟨⟨rest, .inr rfl, hSome, hDigits, hValue⟩, hBound⟩
    · rintro ⟨⟨digits, hSame | hSame, hSome, hDigits, hValue⟩,
        hBound⟩
      · have hPlus := hDigits '+' (by rw [← hSame]; simp)
        exact absurd hPlus (by decide)
      · injection hSame with _ hRest
        subst hRest
        exact ⟨hSome, hDigits, hValue, hBound⟩
  · rename_i hSign
    rw [hParse s.toList]
    constructor
    · rintro ⟨hSome, hDigits, hValue, hBound⟩
      exact ⟨⟨_, .inl rfl, hSome, hDigits, hValue⟩, hBound⟩
    · rintro ⟨⟨digits, hSame | hSame, hSome, hDigits, hValue⟩,
        hBound⟩
      · rw [hSame]
        exact ⟨hSome, hDigits, hValue, hBound⟩
      · exact absurd hSame (hSign digits)

theorem Decimal.inj
    {cs : List Char}
    {n n' : Nat}
    (hDecimal : Decimal cs n)
    (hDecimal' : Decimal cs n') :
    n = n' := by
  have hParse :=
    (@parseUnsigned_iff (n + n') _ (String.ofList cs)).mpr
      ⟨by rwa [String.toList_ofList],
        Nat.lt_of_le_of_lt (Nat.le_add_right n n')
          Nat.lt_two_pow_self⟩
  have hParse' :=
    (@parseUnsigned_iff (n + n') _ (String.ofList cs)).mpr
      ⟨by rwa [String.toList_ofList],
        Nat.lt_of_le_of_lt (Nat.le_add_left n' n)
          Nat.lt_two_pow_self⟩
  exact Option.some.inj (hParse.symm.trans hParse')

/- The parts of a split, put together again. -/
theorem split_eq_iff
    {s : String}
    {c : Char}
    {parts : List String}
    (hParts : parts ≠ []) :
    split s c = parts ↔
      s.toList =
          [c].intercalate (parts.map String.toList) ∧
        ∀ part ∈ parts, c ∉ part.toList := by
  unfold split
  constructor
  · intro hSplit
    have hLists :
        s.toList.splitOn c = parts.map String.toList := by
      rw [← hSplit, List.map_map]
      simp
    constructor
    · rw [← hLists, List.intercalate_splitOn]
    · intro part hMem hIn
      have hPart : part.toList ∈ s.toList.splitOn c := by
        rw [hLists]
        exact List.mem_map_of_mem hMem
      have hFree := Words.not_of_mem_splitOnP hPart c hIn
      simp at hFree
  · rintro ⟨hText, hFree⟩
    rw [hText, List.splitOn_intercalate]
    · rw [List.map_map]
      simp
    · intro l hMem
      rcases List.mem_map.mp hMem with ⟨part, hPart, rfl⟩
      exact hFree part hPart
    · simpa using hParts

end RustText

------------------------------------------------------------
-- Padding
------------------------------------------------------------

namespace RustText

theorem toList_pad2
    (n : Nat) :
    (pad2 n).toList =
      List.replicate (if n < 10 then 1 else 0) '0' ++
        (toString n).toList := by
  unfold pad2
  split
  · rw [String.toList_append]
    rfl
  · rfl

theorem toList_pad4
    (n : Nat) :
    (pad4 n).toList =
      List.replicate (4 - (toString n).length) '0' ++
        (toString n).toList := by
  unfold pad4
  rw [String.toList_append, String.toList_ofList]

theorem digits_padded
    (k n : Nat) :
    Digits (List.replicate k '0' ++ (toString n).toList) :=
  (digits_replicate k).append (digits_toString n)

theorem digitsValue_padded
    (k n : Nat) :
    digitsValue (List.replicate k '0' ++ (toString n).toList) =
      n := by
  rw [digitsValue_replicate_append, digitsValue_toString]

theorem decimal_padded
    (k n : Nat) :
    Decimal (List.replicate k '0' ++ (toString n).toList) n := by
  refine
    ⟨_, .inl rfl, ?_, digits_padded k n,
      (digitsValue_padded k n).symm⟩
  intro hNil
  have hEmpty := (List.append_eq_nil_iff.mp hNil).2
  exact toString_ne_empty n (String.toList_eq_nil_iff.mp hEmpty)

theorem decimal_pad2
    (n : Nat) :
    Decimal (pad2 n).toList n := by
  rw [toList_pad2]
  exact decimal_padded _ n

theorem decimal_pad4
    (n : Nat) :
    Decimal (pad4 n).toList n := by
  rw [toList_pad4]
  exact decimal_padded _ n

theorem length_toString_le
    {k n : Nat}
    (hPos : 0 < k)
    (hLt : n < 10 ^ k) :
    (toString n).length ≤ k := by
  rw [← String.length_toList, toList_toString]
  exact (Nat.length_toDigits_le_iff (by decide) hPos).mpr hLt

theorem length_pad4
    {n : Nat}
    (hLt : n < 10000) :
    (pad4 n).toList.length = 4 := by
  have hShort : (toString n).length ≤ 4 :=
    length_toString_le (by decide) hLt
  rw [toList_pad4, List.length_append, List.length_replicate,
    String.length_toList]
  omega

theorem length_pad2
    {n : Nat}
    (hLt : n < 100) :
    (pad2 n).toList.length = 2 := by
  have hShort : (toString n).length ≤ 2 :=
    length_toString_le (by decide) hLt
  have hPos : 0 < (toString n).length := by
    rw [← String.length_toList]
    exact
      List.length_pos_iff.mpr
        (fun hNil =>
          toString_ne_empty n (String.toList_eq_nil_iff.mp hNil))
  rw [toList_pad2, List.length_append, List.length_replicate,
    String.length_toList]
  split
  · rename_i hSmall
    have hOne : (toString n).length ≤ 1 :=
      length_toString_le (by decide) hSmall
    omega
  · rename_i hLarge
    have hTwo : ¬ (toString n).length ≤ 1 := by
      rw [← String.length_toList, toList_toString]
      intro hOne
      exact
        hLarge
          ((Nat.length_toDigits_le_iff (by decide)
            (by decide)).mp hOne)
    omega

/- Texts with heads of one length are told apart by them. -/
theorem append_lt_iff
    {a a' b b' : List Char}
    (hLength : a.length = a'.length) :
    a ++ b < a' ++ b' ↔ a < a' ∨ (a = a' ∧ b < b') := by
  induction a generalizing a' with
  | nil =>
      cases a' with
      | nil => simp
      | cons c a' => cases hLength
  | cons c a ih =>
      cases a' with
      | nil => cases hLength
      | cons c' a' =>
          rw [List.cons_append, List.cons_append,
            List.cons_lt_cons_iff, List.cons_lt_cons_iff,
            ih (by simpa using hLength), List.cons.injEq]
          tauto

/- Texts that start with padded numbers are told apart by them. -/
theorem padded_cons_lt_iff
    {k k' m n : Nat}
    {c : Char}
    {a b : List Char}
    (hLength :
      (List.replicate k '0' ++ (toString m).toList).length =
        (List.replicate k' '0' ++ (toString n).toList).length) :
    List.replicate k '0' ++ (toString m).toList ++ c :: a <
        List.replicate k' '0' ++ (toString n).toList ++ c :: b ↔
      m < n ∨ (m = n ∧ a < b) := by
  have hLt :=
    digits_lt_iff (digits_padded k m) (digits_padded k' n)
      hLength
  rw [digitsValue_padded, digitsValue_padded] at hLt
  have hEq :
      List.replicate k '0' ++ (toString m).toList =
          List.replicate k' '0' ++ (toString n).toList ↔
        m = n := by
    constructor
    · intro hSame
      have hOther := decimal_padded k' n
      rw [← hSame] at hOther
      exact (decimal_padded k m).inj hOther
    · rintro rfl
      have hPads : k = k' := by simpa using hLength
      rw [hPads]
  rw [append_lt_iff hLength, hLt, hEq, List.cons_lt_cons_self]

theorem pad2_cons_lt_iff
    {m n : Nat}
    {c : Char}
    {a b : List Char}
    (hM : m < 100)
    (hN : n < 100) :
    (pad2 m).toList ++ c :: a < (pad2 n).toList ++ c :: b ↔
      m < n ∨ (m = n ∧ a < b) := by
  have hLength :=
    (length_pad2 hM).trans (length_pad2 hN).symm
  rw [toList_pad2, toList_pad2] at hLength ⊢
  exact padded_cons_lt_iff hLength

theorem pad4_cons_lt_iff
    {m n : Nat}
    {c : Char}
    {a b : List Char}
    (hM : m < 10000)
    (hN : n < 10000) :
    (pad4 m).toList ++ c :: a < (pad4 n).toList ++ c :: b ↔
      m < n ∨ (m = n ∧ a < b) := by
  have hLength :=
    (length_pad4 hM).trans (length_pad4 hN).symm
  rw [toList_pad4, toList_pad4] at hLength ⊢
  exact padded_cons_lt_iff hLength

end RustText
