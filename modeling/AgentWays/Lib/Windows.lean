import Mathlib.Data.List.Basic
import Mathlib.Data.List.TakeDrop

/-
  A word looked for in a text that is read in parts.

  Of the part that was read, its last few elements tell all
  that the next part can make of the word: as many as the
  word has but one.

  Key definitions include:
    * `Windows.tailOf`

  Main declarations:
    * `Windows.infix_append_iff`
    * `Windows.tailOf_append`
-/

------------------------------------------------------------
-- Words Across Parts
------------------------------------------------------------

namespace Windows

variable {α : Type} {word xs ys : List α}

/- The last elements of a text, so many of them. -/
def tailOf
    (n : Nat)
    (xs : List α) : List α :=
  xs.drop (xs.length - n)

@[simp] theorem tailOf_nil
    (n : Nat) :
    tailOf n ([] : List α) = [] := by
  simp [tailOf]

theorem tailOf_suffix
    (n : Nat)
    (xs : List α) :
    tailOf n xs <:+ xs :=
  List.drop_suffix _ _

/- The end of a text is that of its end and what follows. -/
theorem tailOf_append
    (n : Nat)
    (xs ys : List α) :
    tailOf n (tailOf n xs ++ tailOf n ys) =
      tailOf n (xs ++ ys) := by
  unfold tailOf
  simp only [List.drop_append, List.length_append,
    List.length_drop, List.drop_drop]
  by_cases hLong : n ≤ ys.length
  · -- all of the end lies in what follows
    rw [List.drop_of_length_le (by omega),
      List.drop_of_length_le (l := xs) (by omega)]
    congr 2
    omega
  · congr 2 <;> omega

/- A word that ends in what follows starts near the end. -/
theorem infix_of_across
    {front back : List α}
    (hFront : front <:+ xs)
    (hBack : back <+: ys)
    (hLeft : front ≠ [])
    (hRight : back ≠ []) :
    front ++ back <:+:
      tailOf ((front ++ back).length - 1) xs ++
        ys.take ((front ++ back).length - 1) := by
  have hLeft' := List.length_pos_iff.mpr hLeft
  have hRight' := List.length_pos_iff.mpr hRight
  have hEnd :
      front <:+ tailOf ((front ++ back).length - 1) xs := by
    rcases hFront with ⟨before, rfl⟩
    unfold tailOf
    rw [List.drop_append_of_le_length (by
      rw [List.length_append, List.length_append]
      omega)]
    exact List.suffix_append _ _
  have hStart :
      back <+: ys.take ((front ++ back).length - 1) := by
    rw [List.prefix_take_iff]
    refine ⟨hBack, ?_⟩
    rw [List.length_append]
    omega
  rcases hEnd with ⟨before, hBefore⟩
  rcases hStart with ⟨after, hAfter⟩
  refine ⟨before, after, ?_⟩
  rw [← hBefore, ← hAfter]
  simp only [List.append_assoc]

/-
  A word is in a text of two parts where it is in the one,
  in the other, or in the ends of both that meet.
-/
theorem infix_append_iff
    (word xs ys : List α) :
    word <:+: xs ++ ys ↔
      word <:+: xs ∨ word <:+: ys ∨
        word <:+:
          tailOf (word.length - 1) xs ++
            ys.take (word.length - 1) := by
  constructor
  · rintro ⟨before, after, hSame⟩
    by_cases hIn : before.length + word.length ≤ xs.length
    · refine Or.inl ⟨before, xs.drop (before ++ word).length, ?_⟩
      have hPrefix : before ++ word <+: xs :=
        List.prefix_of_prefix_length_le
          ⟨after, hSame⟩ (List.prefix_append xs ys)
          (by simpa using hIn)
      exact (List.prefix_iff_eq_append.mp hPrefix)
    · by_cases hAfter : xs.length ≤ before.length
      · have hPrefix : xs <+: before :=
          List.prefix_of_prefix_length_le
            (List.prefix_append xs ys)
            ⟨word ++ after, by rw [← hSame]; simp⟩ hAfter
        rcases hPrefix with ⟨middle, rfl⟩
        refine Or.inr (Or.inl ⟨middle, after, ?_⟩)
        have hRest :
            xs ++ (middle ++ word ++ after) = xs ++ ys := by
          simpa using hSame
        exact List.append_cancel_left hRest
      · -- the first part ends within the word
        have hBefore : before <+: xs :=
          List.prefix_of_prefix_length_le
            ⟨word ++ after, by rw [← hSame]; simp⟩
            (List.prefix_append xs ys) (by omega)
        rcases hBefore with ⟨front, rfl⟩
        rw [List.append_assoc, List.append_assoc] at hSame
        have hRest := List.append_cancel_left hSame
        have hFront : front <+: word :=
          List.prefix_of_prefix_length_le
            ⟨ys, hRest.symm⟩ (List.prefix_append word after)
            (by simp at hIn; omega)
        rcases hFront with ⟨back, rfl⟩
        rw [List.append_assoc] at hRest
        have hBack := List.append_cancel_left hRest
        refine Or.inr (Or.inr ?_)
        apply infix_of_across (List.suffix_append before front)
          ⟨after, hBack⟩
        · rintro rfl
          simp at hAfter
        · rintro rfl
          simp at hIn
  · rintro (hIn | hIn | hIn)
    · exact hIn.trans (List.prefix_append xs ys).isInfix
    · exact hIn.trans (List.suffix_append xs ys).isInfix
    · refine hIn.trans ?_
      rcases tailOf_suffix (word.length - 1) xs with
        ⟨before, hBefore⟩
      refine ⟨before, ys.drop (word.length - 1), ?_⟩
      rw [← List.append_assoc, hBefore, List.append_assoc,
        List.take_append_drop]

end Windows
