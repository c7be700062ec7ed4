import AgentWays.Lib.JsText
import AgentWays.Lib.Framing
import Mathlib.Data.List.DropRight

/-
  The string functions on the code units of a text, and the
  text functions they stand for.

  Main declarations:
    * `JsText.trim_replaceRuns_ofChars`
    * `JsText.replaceOthers_ofChars`
    * `JsText.sliceLast_toString36`
    * `JsText.trim_trim`
    * `JsText.indexOf_of_once`, `JsText.lastIndexOf_of_once`
-/

------------------------------------------------------------
-- Trims
------------------------------------------------------------

namespace JsText

variable {α β : Type}

theorem dropWhile_flatMap
    {p : α → Bool}
    {q : β → Bool}
    {f : α → List β}
    {xs : List α}
    (hTrue : ∀ x ∈ xs, p x = true → ∃ y, f x = [y] ∧ q y = true)
    (hFalse :
      ∀ x ∈ xs, p x = false → ∃ y ys, f x = y :: ys ∧ q y = false) :
    (xs.flatMap f).dropWhile q = (xs.dropWhile p).flatMap f := by
  induction xs with
  | nil => rfl
  | cons x xs ih =>
      rw [List.flatMap_cons]
      cases hX : p x with
      | true =>
          rcases hTrue x List.mem_cons_self hX with ⟨y, hY, hQ⟩
          rw [hY, List.singleton_append,
            List.dropWhile_cons_of_pos hQ,
            List.dropWhile_cons_of_pos hX]
          apply ih
          · intro z hMember
            exact hTrue z (List.mem_cons_of_mem x hMember)
          · intro z hMember
            exact hFalse z (List.mem_cons_of_mem x hMember)
      | false =>
          rcases hFalse x List.mem_cons_self hX with
            ⟨y, ys, hY, hQ⟩
          rw [List.dropWhile_cons_of_neg (by simp [hX]),
            List.flatMap_cons, hY, List.cons_append,
            List.dropWhile_cons_of_neg (by simp [hQ])]

/- The last of a list without the trail that a class has. -/
theorem rdropWhile_cons
    (p : α → Bool)
    (x : α)
    (xs : List α) :
    (x :: xs).rdropWhile p =
      if xs.rdropWhile p = [] ∧ p x = true then []
      else x :: xs.rdropWhile p := by
  induction xs using List.reverseRecOn with
  | nil =>
      cases hX : p x <;> simp [List.rdropWhile, hX]
  | append_singleton xs y ih =>
      rw [← List.cons_append]
      cases hY : p y with
      | true =>
          rw [List.rdropWhile_concat_pos p _ y hY,
            List.rdropWhile_concat_pos p _ y hY, ih]
      | false =>
          have hKept : ¬ p y = true := by simp [hY]
          rw [List.rdropWhile_concat_neg p _ y hKept,
            List.rdropWhile_concat_neg p _ y hKept]
          simp

theorem rdropWhile_cons_of_neg
    {p : α → Bool}
    {x : α}
    (xs : List α)
    (hX : p x = false) :
    (x :: xs).rdropWhile p = x :: xs.rdropWhile p := by
  rw [rdropWhile_cons, if_neg]
  simp [hX]

end JsText

------------------------------------------------------------
-- Runs
------------------------------------------------------------

namespace JsText

theorem intercalate_cons_eq_flatMap
    {α : Type}
    (sep : α)
    (p : List α)
    (ps : List (List α)) :
    [sep].intercalate (p :: ps) =
      p ++ ps.flatMap (fun q => sep :: q) := by
  induction ps generalizing p with
  | nil => simp [List.intercalate_singleton]
  | cons q qs ih =>
      rw [List.intercalate_cons_cons, ih q, List.flatMap_cons,
        List.append_assoc]
      rfl

variable {inClass space : Nat → Bool}

/- The parts between the runs of a class. -/
def partsOf
    (inClass : Nat → Bool)
    (points : List Nat) : List (List Nat) :=
  (points.splitOnP inClass).filter (fun p => !p.isEmpty)

theorem partsOf_cons_of_pos
    {n : Nat}
    (rest : List Nat)
    (hN : inClass n = true) :
    partsOf inClass (n :: rest) = partsOf inClass rest := by
  unfold partsOf
  rw [List.splitOnP_cons_eq_if_modifyHead, if_pos hN,
    List.filter_cons_of_neg (by simp)]

theorem dropWhile_squeeze_true
    (hSpace : ∀ n, space n = true → inClass n = true)
    (points : List Nat) :
    (squeeze inClass true points).dropWhile space =
      squeeze inClass true points := by
  induction points with
  | nil => rfl
  | cons n rest ih =>
      unfold squeeze
      cases hN : inClass n with
      | true => exact ih
      | false =>
          apply List.dropWhile_cons_of_neg
          intro hSpaceN
          rw [hSpace n hSpaceN] at hN
          contradiction

/- A run at the start leaves nothing to a trim. -/
theorem dropWhile_squeeze_false
    (hSpace : ∀ n, space n = true → inClass n = true)
    (hBlank : space 0x20 = true)
    (points : List Nat) :
    (squeeze inClass false points).dropWhile space =
      squeeze inClass true points := by
  cases points with
  | nil => rfl
  | cons n rest =>
      have hRest := dropWhile_squeeze_true hSpace rest
      unfold squeeze
      cases hN : inClass n with
      | true =>
          simp only [if_true, Bool.false_eq_true, if_false]
          rw [List.dropWhile_cons_of_pos hBlank, hRest]
      | false =>
          apply List.dropWhile_cons_of_neg
          intro hSpaceN
          rw [hSpace n hSpaceN] at hN
          contradiction

/-
  What a trim at the end leaves: the parts with a space
  between two of them after a run, and the word that was
  begun with a space before each part without one.
-/
theorem rdropWhile_squeeze
    (hSpace : ∀ n, space n = true → inClass n = true)
    (hBlank : space 0x20 = true)
    (points : List Nat) :
    (squeeze inClass true points).rdropWhile space =
        [0x20].intercalate (partsOf inClass points) ∧
      ∃ word more,
        points.splitOnP inClass = word :: more ∧
        (squeeze inClass false points).rdropWhile space =
          word ++
            (more.filter (fun p => !p.isEmpty)).flatMap
              (fun p => 0x20 :: p) := by
  induction points with
  | nil => exact ⟨rfl, [], [], rfl, rfl⟩
  | cons n rest ih =>
      rcases ih with ⟨hRun, word, more, hSplit, hWord⟩
      cases hN : inClass n with
      | true =>
          have hTrue :
              (squeeze inClass true
                (n :: rest)).rdropWhile space =
                [0x20].intercalate (partsOf inClass rest) := by
            rw [squeeze, if_pos hN]
            exact hRun
          refine ⟨?_, [], rest.splitOnP inClass, ?_, ?_⟩
          · rw [hTrue, partsOf_cons_of_pos rest hN]
          · rw [List.splitOnP_cons_eq_if_modifyHead, if_pos hN]
          · rw [squeeze, if_pos hN, if_neg Bool.false_ne_true,
              rdropWhile_cons, hRun, List.nil_append]
            change _ =
              (partsOf inClass rest).flatMap
                (fun p => 0x20 :: p)
            cases hParts : partsOf inClass rest with
            | nil => simp [hBlank]
            | cons p ps =>
                have hPart : p ≠ [] := by
                  have hMember : p ∈ partsOf inClass rest := by
                    simp [hParts]
                  simpa [partsOf] using
                    (List.mem_filter.mp hMember).2
                have hNonempty :
                    [0x20].intercalate (p :: ps) ≠ [] := by
                  cases ps <;> simp [List.intercalate, hPart]
                rw [if_neg (fun hBoth => hNonempty hBoth.1)]
                rw [intercalate_cons_eq_flatMap,
                  List.flatMap_cons, List.cons_append]
      | false =>
          have hSpaceN : space n = false := by
            cases hCase : space n with
            | false => rfl
            | true =>
                rw [hSpace n hCase] at hN
                contradiction
          have hEither :
              ∀ run,
                (squeeze inClass run
                  (n :: rest)).rdropWhile space =
                  n ::
                    (word ++
                      (more.filter
                        (fun p => !p.isEmpty)).flatMap
                        (fun p => 0x20 :: p)) := by
            intro run
            rw [squeeze, if_neg (by simp [hN]),
              rdropWhile_cons_of_neg _ hSpaceN, hWord]
          have hSplitCons :
              (n :: rest).splitOnP inClass =
                (n :: word) :: more := by
            rw [List.splitOnP_cons_eq_if_modifyHead,
              if_neg (by simp [hN]), hSplit]
            rfl
          refine ⟨?_, n :: word, more, hSplitCons, hEither false⟩
          rw [hEither true, partsOf, hSplitCons,
            List.filter_cons_of_pos (by rfl)]
          rw [intercalate_cons_eq_flatMap, List.cons_append]

end JsText

------------------------------------------------------------
-- Texts
------------------------------------------------------------

namespace JsText

open Utf16

theorem ofChars_cons
    (c : Char)
    (cs : List Char) :
    ofChars (c :: cs) = unitsOf c.toNat ++ ofChars cs :=
  rfl

/- A text's character is one unit, or two surrogates. -/
theorem unitsOf_cases
    {n : Nat}
    (hBound : n < 0x110000) :
    (n < 0x10000 ∧ unitsOf n = [UInt16.ofNat n] ∧
        (UInt16.ofNat n).toNat = n) ∨
      (0x10000 ≤ n ∧ ∃ u v,
        unitsOf n = [u, v] ∧
        (0xD800 ≤ u.toNat ∧ u.toNat < 0xE000) ∧
        (0xD800 ≤ v.toNat ∧ v.toNat < 0xE000)) := by
  unfold unitsOf
  split
  · rename_i hSmall
    exact Or.inl ⟨hSmall, rfl, toNat_unit hSmall⟩
  · refine Or.inr ⟨by omega, _, _, rfl, ?_, ?_⟩
    · rw [toNat_unit (by omega)]
      omega
    · rw [toNat_unit (by omega)]
      omega

theorem isSpace_bound
    {n : Nat}
    (hSpace : isSpace n = true) :
    n < 0xD800 ∨ n = 0xFEFF := by
  unfold isSpace at hSpace
  simp only [Bool.or_eq_true, Bool.and_eq_true,
    decide_eq_true_eq, beq_iff_eq] at hSpace
  omega

/- A code unit that is one of a pair is no white space. -/
theorem isSpace_surrogate
    {n : Nat}
    (hBounds : 0xD800 ≤ n ∧ n < 0xE000) :
    isSpace n = false := by
  cases hSpace : isSpace n with
  | false => rfl
  | true =>
      have hBound := isSpace_bound hSpace
      omega

/-
  A white space code point is one white space unit; any
  other is units that are none.
-/
theorem unitsOf_space
    {n : Nat}
    (hBound : n < 0x110000) :
    (isSpace n = true →
      ∃ u, unitsOf n = [u] ∧ isSpace u.toNat = true) ∧
    (isSpace n = false →
      unitsOf n ≠ [] ∧
        ∀ u ∈ unitsOf n, isSpace u.toNat = false) := by
  rcases unitsOf_cases hBound with
    ⟨-, hUnits, hUnit⟩ | ⟨hLarge, u, v, hUnits, hU, hV⟩
  · rw [hUnits]
    constructor
    · intro hSpace
      exact ⟨UInt16.ofNat n, rfl, by rw [hUnit, hSpace]⟩
    · intro hSpace
      refine ⟨by simp, ?_⟩
      intro u hMember
      rw [List.mem_singleton.mp hMember, hUnit, hSpace]
  · rw [hUnits]
    constructor
    · intro hSpace
      have hFar := isSpace_bound hSpace
      omega
    · intro _
      refine ⟨by simp, ?_⟩
      intro w hMember
      rcases List.mem_pair.mp hMember with rfl | rfl
      · exact isSpace_surrogate hU
      · exact isSpace_surrogate hV

theorem dropWhile_ofCodePoints
    {points : List Nat}
    (hBound : ∀ n ∈ points, n < 0x110000) :
    (ofCodePoints points).dropWhile
        (fun u => isSpace u.toNat) =
      ofCodePoints (points.dropWhile isSpace) := by
  apply dropWhile_flatMap
  · intro n hMember hSpace
    exact (unitsOf_space (hBound n hMember)).1 hSpace
  · intro n hMember hSpace
    rcases (unitsOf_space (hBound n hMember)).2 hSpace with
      ⟨hNonempty, hUnits⟩
    cases hCase : unitsOf n with
    | nil => contradiction
    | cons u us =>
        exact ⟨u, us, rfl, hUnits u (by simp [hCase])⟩

theorem rdropWhile_ofCodePoints
    {points : List Nat}
    (hBound : ∀ n ∈ points, n < 0x110000) :
    (ofCodePoints points).rdropWhile
        (fun u => isSpace u.toNat) =
      ofCodePoints (points.rdropWhile isSpace) := by
  have hDrop :
      (points.reverse.flatMap
          (List.reverse ∘ unitsOf)).dropWhile
          (fun u => isSpace u.toNat) =
        (points.reverse.dropWhile isSpace).flatMap
          (List.reverse ∘ unitsOf) := by
    apply dropWhile_flatMap
    · intro n hMember hSpace
      rcases (unitsOf_space
        (hBound n (List.mem_reverse.mp hMember))).1 hSpace with
        ⟨u, hUnits, hUnit⟩
      exact ⟨u, by simp [hUnits], hUnit⟩
    · intro n hMember hSpace
      rcases (unitsOf_space
        (hBound n (List.mem_reverse.mp hMember))).2 hSpace with
        ⟨hNonempty, hUnits⟩
      cases hCase : (unitsOf n).reverse with
      | nil =>
          exact absurd (List.reverse_eq_nil_iff.mp hCase)
            hNonempty
      | cons u us =>
          have hU : u ∈ unitsOf n := by
            rw [← List.mem_reverse, hCase]
            exact List.mem_cons_self
          exact ⟨u, us, hCase, hUnits u hU⟩
  unfold ofCodePoints List.rdropWhile
  rw [List.reverse_flatMap, hDrop, List.reverse_flatMap]
  simp only [Function.comp_def, List.reverse_reverse]

theorem trim_ofCodePoints
    {points : List Nat}
    (hBound : ∀ n ∈ points, n < 0x110000) :
    trim (ofCodePoints points) =
      ofCodePoints
        ((points.dropWhile isSpace).rdropWhile isSpace) := by
  have hRest : ∀ n ∈ points.dropWhile isSpace, n < 0x110000 := by
    intro n hMember
    exact hBound n ((List.dropWhile_sublist isSpace).subset hMember)
  unfold trim
  rw [dropWhile_ofCodePoints hBound]
  exact rdropWhile_ofCodePoints hRest

end JsText

------------------------------------------------------------
-- Lines And Labels
------------------------------------------------------------

namespace JsText

open Utf16

theorem map_intercalate
    {α β : Type}
    (f : α → β)
    (sep : α)
    (parts : List (List α)) :
    ([sep].intercalate parts).map f =
      [f sep].intercalate (parts.map (List.map f)) := by
  cases parts with
  | nil => rfl
  | cons p ps =>
      rw [List.map_cons, intercalate_cons_eq_flatMap,
        intercalate_cons_eq_flatMap, List.map_append,
        List.map_flatMap, List.flatMap_map]
      rfl

theorem splitOnP_map
    {α β : Type}
    {p : α → Bool}
    {q : β → Bool}
    {f : α → β}
    (hSame : ∀ x, p x = q (f x))
    (xs : List α) :
    (xs.map f).splitOnP q =
      (xs.splitOnP p).map (List.map f) := by
  induction xs with
  | nil => rfl
  | cons x xs ih =>
      rw [List.map_cons, List.splitOnP_cons_eq_if_modifyHead,
        List.splitOnP_cons_eq_if_modifyHead, ih, hSame x]
      split
      · rfl
      · cases xs.splitOnP p <;> rfl

theorem mem_squeeze
    {inClass : Nat → Bool}
    {run : Bool}
    {points : List Nat}
    {n : Nat}
    (hMember : n ∈ squeeze inClass run points) :
    n = 0x20 ∨ (n ∈ points ∧ inClass n = false) := by
  induction points generalizing run with
  | nil => contradiction
  | cons m rest ih =>
      have hRest :
          ∀ {run}, n ∈ squeeze inClass run rest →
            n = 0x20 ∨
              (n ∈ m :: rest ∧ inClass n = false) := by
        intro run hThere
        rcases ih hThere with hBlank | ⟨hPoint, hClass⟩
        · exact Or.inl hBlank
        · exact Or.inr ⟨List.mem_cons_of_mem m hPoint, hClass⟩
      unfold squeeze at hMember
      split at hMember
      · split at hMember
        · exact hRest hMember
        · rcases List.mem_cons.mp hMember with hBlank | hThere
          · exact Or.inl hBlank
          · exact hRest hThere
      · rename_i hM
        rcases List.mem_cons.mp hMember with rfl | hThere
        · exact Or.inr
            ⟨List.mem_cons_self, Bool.eq_false_iff.mpr hM⟩
        · exact hRest hThere

/-
  Runs replaced and the ends trimmed, on the units of a
  text: the parts between runs, a space between two.
-/
theorem trim_replaceRuns_ofChars
    {inClass : Nat → Bool}
    {breaks : Char → Bool}
    (hSpace : ∀ n, isSpace n = true → inClass n = true)
    (hSame : ∀ c : Char, breaks c = inClass c.toNat)
    (cs : List Char) :
    trim (replaceRuns inClass (ofChars cs)) =
      ofChars
        ([' '].intercalate
          ((cs.splitOnP breaks).filter (fun p => !p.isEmpty))) := by
  have hBound :
      ∀ n ∈ squeeze inClass false (cs.map Char.toNat),
        n < 0x110000 := by
    intro n hMember
    rcases mem_squeeze hMember with rfl | ⟨hPoint, -⟩
    · decide
    · rcases List.mem_map.mp hPoint with ⟨c, -, rfl⟩
      rcases toNat_char_cases c with hLow | hHigh <;> omega
  have hParts :
      partsOf inClass (cs.map Char.toNat) =
        ((cs.splitOnP breaks).filter
          (fun p => !p.isEmpty)).map (List.map Char.toNat) := by
    unfold partsOf
    rw [splitOnP_map hSame, List.filter_map]
    congr 2
    funext p
    cases p <;> rfl
  unfold replaceRuns
  rw [codePoints_ofChars, trim_ofCodePoints hBound,
    dropWhile_squeeze_false hSpace (by decide),
    (rdropWhile_squeeze hSpace (by decide) _).1, hParts]
  unfold ofChars
  rw [map_intercalate]
  rfl

theorem replaceOthers_ofChars
    {kept : Nat → Bool}
    {keeps : Char → Bool}
    (hSame : ∀ c : Char, keeps c = kept c.toNat)
    (cs : List Char) :
    replaceOthers kept (ofChars cs) =
      ofChars (cs.map (fun c => if keeps c then c else '-')) := by
  unfold replaceOthers
  rw [codePoints_ofChars]
  unfold ofChars
  rw [List.map_map, List.map_map]
  congr 1
  apply List.map_congr_left
  intro c _
  simp only [Function.comp, hSame c]
  split <;> rfl

end JsText

------------------------------------------------------------
-- Digits
------------------------------------------------------------

namespace JsText

/-
  The last digits of a padded number are the first of its
  digits, from the lowest on, padded at the other end.
-/
theorem sliceLast_reverse
    (digits : JsString)
    (k : Nat)
    (u : UInt16) :
    sliceLast (padStart digits.reverse k u) k =
      ((digits ++
        List.replicate (k - digits.length) u).take k).reverse := by
  unfold sliceLast padStart
  rw [List.reverse_take, List.reverse_append,
    List.reverse_replicate]
  simp only [List.length_append, List.length_replicate,
    List.length_reverse]
  congr 1
  omega

theorem sliceLast_toString36
    {k : Nat}
    (n : Nat)
    (hWidth : 0 < k) :
    sliceLast (padStart (toString36 n) k 0x30) k =
      (((Nat.digits 36 n).map digitUnit ++
        List.replicate (k - (Nat.digits 36 n).length)
          0x30).take k).reverse := by
  unfold toString36
  split
  · rename_i hZero
    have hOne : [digitUnit 0] = [digitUnit 0].reverse := rfl
    have hDigit : digitUnit 0 = 0x30 := rfl
    have hCount : k = (k - 1) + 1 := by omega
    rw [hOne, sliceLast_reverse, hZero, hDigit]
    congr 2
    rw [Nat.digits_zero, List.map_nil, List.nil_append,
      List.length_nil, Nat.sub_zero, List.length_singleton]
    nth_rewrite 2 [hCount]
    rfl
  · rw [sliceLast_reverse, List.length_map]

end JsText

------------------------------------------------------------
-- Trimmed Strings
------------------------------------------------------------

namespace JsText

open Utf16

theorem rdropWhile_dropWhile_fixed
    {α : Type}
    (p : α → Bool)
    (xs : List α) :
    ((xs.dropWhile p).rdropWhile p).dropWhile p =
      (xs.dropWhile p).rdropWhile p := by
  cases hDrop : xs.dropWhile p with
  | nil => rfl
  | cons x rest =>
      have hHead : p x = false := by
        have hSome : xs.dropWhile p ≠ [] := by
          rw [hDrop]
          exact List.cons_ne_nil x rest
        have hNot := List.head_dropWhile_not p hSome
        simpa only [hDrop, List.head_cons] using hNot
      rw [rdropWhile_cons_of_neg rest hHead,
        List.dropWhile_cons_of_neg (by simp [hHead])]

/- What a trim leaves has no white space at either end. -/
theorem trim_fixed
    (s : JsString) :
    (trim s).dropWhile (fun u => isSpace u.toNat) = trim s ∧
      (trim s).rdropWhile (fun u => isSpace u.toNat) =
        trim s :=
  ⟨rdropWhile_dropWhile_fixed _ s,
    List.rdropWhile_idempotent _ _⟩

theorem trim_eq_self
    {s : JsString}
    (hStart : s.dropWhile (fun u => isSpace u.toNat) = s)
    (hEnd : s.rdropWhile (fun u => isSpace u.toNat) = s) :
    trim s = s := by
  unfold trim
  rw [hStart]
  exact hEnd

theorem mem_of_mem_trim
    {s : JsString}
    {u : UInt16}
    (hMember : u ∈ trim s) :
    u ∈ s := by
  have hPrefix :=
    List.rdropWhile_prefix (fun u : UInt16 => isSpace u.toNat)
      (s.dropWhile (fun u => isSpace u.toNat))
  exact (List.dropWhile_sublist _).subset
    (hPrefix.subset hMember)

theorem codePoints_bound
    (s : JsString) :
    ∀ n ∈ codePoints s, n < 0x110000 := by
  fun_induction codePoints s with
  | case1 => simp
  | case2 u =>
      intro n hMember
      rw [List.mem_singleton.mp hMember]
      have hUnit := u.toNat_lt
      omega
  | case3 u v rest hPair ih =>
      intro n hMember
      unfold isHigh isLow at hPair
      simp only [Bool.and_eq_true, decide_eq_true_eq] at hPair
      rcases List.mem_cons.mp hMember with hPoint | hRest
      · omega
      · exact ih n hRest
  | case4 u v rest hPair ih =>
      intro n hMember
      rcases List.mem_cons.mp hMember with rfl | hRest
      · have hUnit := u.toNat_lt
        omega
      · exact ih n hRest

/- A unit of a class is in no string whose runs are replaced. -/
theorem not_mem_replaceRuns
    {inClass : Nat → Bool}
    {u : UInt16}
    (hClass : inClass u.toNat = true)
    (hBlank : u ≠ 0x20)
    (hSmall : u.toNat < 0xD800)
    (s : JsString) :
    u ∉ replaceRuns inClass s := by
  intro hMember
  rcases List.mem_flatMap.mp hMember with ⟨n, hPoint, hUnit⟩
  have hThere : u.toNat = n := by
    have hBound : n < 0x110000 := by
      rcases mem_squeeze hPoint with rfl | ⟨hPoint, -⟩
      · decide
      · exact codePoints_bound s n hPoint
    rcases unitsOf_cases hBound with
      ⟨-, hUnits, hUnitN⟩ | ⟨-, v, w, hUnits, hV, hW⟩
    · rw [hUnits] at hUnit
      rw [List.mem_singleton.mp hUnit, hUnitN]
    · rw [hUnits] at hUnit
      rcases List.mem_pair.mp hUnit with rfl | rfl <;> omega
  rcases mem_squeeze hPoint with hEq | ⟨-, hOut⟩
  · apply hBlank
    rw [← UInt16.toNat_inj, hThere, hEq]
    rfl
  · rw [← hThere, hClass] at hOut
    cases hOut

open Framing in
/- A trimmed end stays one when marks are replaced. -/
theorem rdropWhile_screen
    {α : Type}
    [DecidableEq α]
    {mark standIn : α}
    {keeps : List α → Bool}
    {p : α → Bool}
    (hMark : p mark = false)
    (hStand : p standIn = false)
    {line : List α}
    (hEnd : line.rdropWhile p = line) :
    (screen mark standIn keeps line).rdropWhile p =
      screen mark standIn keeps line := by
  induction line with
  | nil => rfl
  | cons x line ih =>
      rw [rdropWhile_cons] at hEnd
      split at hEnd
      · cases hEnd
      · rename_i hCase
        have hLine := List.tail_eq_of_cons_eq hEnd
        have hSame :
            p (if x = mark ∧ keeps line = false then standIn
              else x) = p x := by
          split
          · rename_i hMarked
            rw [hStand, hMarked.1, hMark]
          · rfl
        unfold screen
        rw [rdropWhile_cons, ih hLine, if_neg]
        rintro ⟨hEmpty, hX⟩
        apply hCase
        cases line with
        | nil => exact ⟨rfl, hSame ▸ hX⟩
        | cons y line => cases hEmpty

end JsText

------------------------------------------------------------
-- Places
------------------------------------------------------------

namespace JsText

open Framing

variable {pattern before after : JsString}

theorem lastIndexOf_eq_none
    (hPattern : pattern ≠ [])
    {text : JsString}
    (hNone :
      occurrences (fun t => pattern.isPrefixOf t) text = 0) :
    lastIndexOf pattern text = none := by
  induction text with
  | nil => simp [lastIndexOf, hPattern]
  | cons u rest ih =>
      rw [occurrences_cons] at hNone
      cases hHere : pattern.isPrefixOf (u :: rest) with
      | true => simp [hHere] at hNone
      | false => simp [lastIndexOf, hHere, ih (by omega)]

theorem isPrefixOf_append
    (pattern after : JsString) :
    pattern.isPrefixOf (pattern ++ after) = true := by
  rw [List.isPrefixOf_iff_prefix]
  exact List.prefix_append pattern after

theorem occurrences_append_pos
    (pattern before after : JsString) :
    0 < occurrences (fun t => pattern.isPrefixOf t)
      (before ++ (pattern ++ after)) := by
  rw [Nat.pos_iff_ne_zero, ne_eq, occurrences_eq_zero_iff,
    not_not, ← List.append_assoc]
  exact ⟨before, after, rfl⟩

/- A pattern that is in a text once is found at its place. -/
theorem indexOf_of_once
    (hPattern : pattern ≠ [])
    (hOnce :
      occurrences (fun t => pattern.isPrefixOf t)
        (before ++ (pattern ++ after)) ≤ 1) :
    indexOf pattern (before ++ (pattern ++ after)) =
      some before.length := by
  induction before with
  | nil =>
      have hHere := isPrefixOf_append pattern after
      rw [List.nil_append]
      cases hText : pattern ++ after with
      | nil =>
          exact absurd (List.append_eq_nil_iff.mp hText).1
            hPattern
      | cons u rest =>
          rw [hText] at hHere
          rw [indexOf, if_pos hHere]
          rfl
  | cons u before ih =>
      have hLater := occurrences_append_pos pattern before after
      rw [List.cons_append, occurrences_cons] at hOnce
      cases hHere :
          pattern.isPrefixOf
            (u :: (before ++ (pattern ++ after))) with
      | true =>
          rw [if_pos hHere] at hOnce
          omega
      | false =>
          rw [List.cons_append, indexOf,
            if_neg (by simp [hHere]), ih (by omega)]
          rfl

theorem lastIndexOf_of_once
    (hPattern : pattern ≠ [])
    (hOnce :
      occurrences (fun t => pattern.isPrefixOf t)
        (before ++ (pattern ++ after)) ≤ 1) :
    lastIndexOf pattern (before ++ (pattern ++ after)) =
      some before.length := by
  induction before with
  | nil =>
      have hHere := isPrefixOf_append pattern after
      rw [List.nil_append] at hOnce ⊢
      cases hText : pattern ++ after with
      | nil =>
          exact absurd (List.append_eq_nil_iff.mp hText).1
            hPattern
      | cons u rest =>
          rw [hText] at hHere hOnce
          rw [occurrences_cons, if_pos hHere] at hOnce
          rw [lastIndexOf,
            lastIndexOf_eq_none hPattern (by omega)]
          simp [hHere]
  | cons u before ih =>
      rw [List.cons_append, occurrences_cons] at hOnce
      rw [List.cons_append, lastIndexOf, ih (by omega)]
      rfl

end JsText
