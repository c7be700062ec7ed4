import Mathlib.Data.List.Sort
import Mathlib.Data.List.Count
import Mathlib.Order.Lattice

/-
  The first `n` of a list by a key, and the rest.

  `beyond` is what a sort by the key leaves after the first
  `n`. Which elements those are depends on the order of the
  list only where a key is shared by elements on both sides
  of the cut: an element with at most `n` keys up to its own
  is never beyond, one with `n` smaller keys always is.

  Key definitions include:
    * `Cutoff.beyond`

  Main declarations:
    * `Cutoff.not_mem_beyond`
    * `Cutoff.mem_beyond`
    * `Cutoff.length_filter_not_mem_beyond`
-/

------------------------------------------------------------
-- Sorted Lists
------------------------------------------------------------

namespace Cutoff

variable {A K : Type} [LinearOrder K]

/- What stands late has many keys up to its own. -/
theorem lt_countP_of_mem_drop
    {key : A → K}
    {l : List A}
    {n : Nat}
    {x : A}
    (hSorted : l.Pairwise (fun a b => key a ≤ key b))
    (hMem : x ∈ l.drop n) :
    n < l.countP (fun a => decide (key a ≤ key x)) := by
  have hLong : n < l.length := by
    by_contra hShort
    rw [List.drop_eq_nil_of_le (by omega)] at hMem
    cases hMem
  have hSplit := List.take_append_drop n l
  rw [← hSplit, List.pairwise_append] at hSorted
  rcases hSorted with ⟨-, -, hAcross⟩
  have hTake :
      (l.take n).countP (fun a => decide (key a ≤ key x)) =
        n := by
    rw [List.countP_eq_length.mpr, List.length_take]
    · omega
    · intro a hIn
      simpa using hAcross a hIn x hMem
  have hDrop :
      0 < (l.drop n).countP
        (fun a => decide (key a ≤ key x)) := by
    rw [List.countP_pos_iff]
    exact ⟨x, hMem, by simp⟩
  rw [← hSplit, List.countP_append]
  omega

/- What stands early has few keys below its own. -/
theorem countP_lt_of_mem_take
    {key : A → K}
    {l : List A}
    {n : Nat}
    {x : A}
    (hSorted : l.Pairwise (fun a b => key a ≤ key b))
    (hMem : x ∈ l.take n) :
    l.countP (fun a => decide (key a < key x)) < n := by
  have hSplit := List.take_append_drop n l
  rw [← hSplit, List.pairwise_append] at hSorted
  rcases hSorted with ⟨-, -, hAcross⟩
  have hDrop :
      (l.drop n).countP (fun a => decide (key a < key x)) =
        0 := by
    rw [List.countP_eq_zero]
    intro a hIn
    simpa using hAcross x hMem a hIn
  have hTake :
      (l.take n).countP (fun a => decide (key a < key x)) <
        (l.take n).length := by
    rw [List.countP_lt_length_iff]
    exact ⟨x, hMem, by simp⟩
  have hLength : (l.take n).length ≤ n :=
    List.length_take_le n l
  rw [← hSplit, List.countP_append]
  omega

end Cutoff

------------------------------------------------------------
-- The Cut
------------------------------------------------------------

namespace Cutoff

variable {A K : Type} [LinearOrder K]

/- What a stable sort by the key leaves after the first. -/
def beyond
    (key : A → K)
    (n : Nat)
    (l : List A) : List A :=
  (l.insertionSort (fun a b => key a ≤ key b)).drop n

theorem sorted_by
    (key : A → K)
    (l : List A) :
    (l.insertionSort (fun a b => key a ≤ key b)).Pairwise
      (fun a b => key a ≤ key b) := by
  have : Std.Total (fun a b : A => key a ≤ key b) :=
    ⟨fun a b => le_total (key a) (key b)⟩
  have : IsTrans A (fun a b => key a ≤ key b) :=
    ⟨fun _ _ _ h h' => le_trans h h'⟩
  exact List.pairwise_insertionSort _ l

theorem mem_of_mem_beyond
    {key : A → K}
    {n : Nat}
    {l : List A}
    {x : A}
    (hMem : x ∈ beyond key n l) :
    x ∈ l :=
  (List.mem_insertionSort _).mp (List.mem_of_mem_drop hMem)

/- At most `n` keys up to its own keep an element. -/
theorem not_mem_beyond
    {key : A → K}
    {n : Nat}
    {l : List A}
    {x : A}
    (hFew : l.countP (fun a => decide (key a ≤ key x)) ≤ n) :
    x ∉ beyond key n l := by
  intro hMem
  have hMany :=
    lt_countP_of_mem_drop (sorted_by key l) hMem
  rw [(List.perm_insertionSort _ l).countP_eq] at hMany
  omega

/- With `n` keys below its own an element is cut. -/
theorem mem_beyond
    {key : A → K}
    {n : Nat}
    {l : List A}
    {x : A}
    (hMem : x ∈ l)
    (hMany : n ≤ l.countP (fun a => decide (key a < key x))) :
    x ∈ beyond key n l := by
  have hIn :
      x ∈ l.insertionSort (fun a b => key a ≤ key b) :=
    (List.mem_insertionSort _).mpr hMem
  rw [← List.take_append_drop n
    (l.insertionSort (fun a b => key a ≤ key b))] at hIn
  rcases List.mem_append.mp hIn with hEarly | hLate
  · have hFew :=
      countP_lt_of_mem_take (sorted_by key l) hEarly
    rw [(List.perm_insertionSort _ l).countP_eq] at hFew
    omega
  · exact hLate

/- All but those beyond: `n` of them, or the whole list. -/
theorem length_filter_not_mem_beyond
    [DecidableEq A]
    {key : A → K}
    {n : Nat}
    {l : List A}
    (hNodup : l.Nodup) :
    (l.filter
      (fun a => decide (a ∉ beyond key n l))).length =
        min n l.length := by
  have hPerm :=
    List.perm_insertionSort
      (fun a b : A => key a ≤ key b) l
  have hSorted := hPerm.nodup_iff.mpr hNodup
  have hSplit :=
    List.take_append_drop n
      (l.insertionSort (fun a b => key a ≤ key b))
  rw [← hSplit, List.nodup_append] at hSorted
  rcases hSorted with ⟨-, -, hApart⟩
  rw [← List.countP_eq_length_filter, ← hPerm.countP_eq,
    ← hSplit, List.countP_append]
  have hTake :
      ((l.insertionSort
        (fun a b => key a ≤ key b)).take n).countP
          (fun a => decide (a ∉ beyond key n l)) =
        min n l.length := by
    rw [List.countP_eq_length.mpr, List.length_take,
      hPerm.length_eq]
    intro a hIn
    rw [decide_eq_true_eq]
    intro hBeyond
    exact hApart a hIn a hBeyond rfl
  have hDrop :
      ((l.insertionSort
        (fun a b => key a ≤ key b)).drop n).countP
          (fun a => decide (a ∉ beyond key n l)) = 0 := by
    rw [List.countP_eq_zero]
    intro a hIn
    rw [decide_eq_true_eq, not_not]
    exact hIn
  rw [hTake, hDrop, Nat.add_zero]

end Cutoff
