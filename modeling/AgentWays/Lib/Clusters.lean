import Mathlib.Data.List.Basic
import Mathlib.Tactic.Common

/-
  Texts cut into clusters, and the places between them.

  A segmentation cuts each text into clusters that are not
  empty and make up the text. A boundary is the length of
  some of its first clusters.

  Key definitions include:
    * `Segmentation`
    * `Segmentation.bounds`
    * `Segmentation.joins`

  Main declarations:
    * `Segmentation.mem_bounds_iff`
    * `Segmentation.find?_next`
    * `Segmentation.find?_previous`
-/

------------------------------------------------------------
-- Ends
------------------------------------------------------------

variable {α : Type}

/- A way to cut texts into clusters. -/
structure Segmentation (α : Type) where
  clusters : List α → List (List α)
  flatten_clusters : ∀ s, (clusters s).flatten = s
  nonempty : ∀ s, [] ∉ clusters s

namespace Segmentation

/- Where each cluster ends, the first of them after `n`. -/
def ends
    (n : Nat) : List (List α) → List Nat
| [] => []
| g :: rest => (n + g.length) :: ends (n + g.length) rest

theorem ends_append
    (n : Nat)
    (gs hs : List (List α)) :
    ends n (gs ++ hs) =
      ends n gs ++ ends (n + gs.flatten.length) hs := by
  induction gs generalizing n with
  | nil => simp [ends]
  | cons g rest ih =>
      simp only [List.cons_append, ends, ih,
        List.flatten_cons, List.length_append, Nat.add_assoc]

theorem le_of_mem_ends
    {n b : Nat}
    {gs : List (List α)}
    (hMember : b ∈ ends n gs) :
    n ≤ b ∧ b ≤ n + gs.flatten.length := by
  induction gs generalizing n with
  | nil => cases hMember
  | cons g rest ih =>
      rw [List.flatten_cons, List.length_append]
      rcases List.mem_cons.mp hMember with rfl | hLater
      · omega
      · have hRest := ih hLater
        omega

/- An end is the length of some first clusters. -/
theorem mem_ends_iff
    (n b : Nat)
    (gs : List (List α)) :
    b ∈ n :: ends n gs ↔
      ∃ first second,
        gs = first ++ second ∧
          b = n + first.flatten.length := by
  constructor
  · intro hMember
    induction gs generalizing n with
    | nil =>
        refine ⟨[], [], rfl, ?_⟩
        simpa [ends] using hMember
    | cons g rest ih =>
        rcases List.mem_cons.mp hMember with rfl | hLater
        · exact ⟨[], g :: rest, rfl, by simp⟩
        · rcases ih (n + g.length) hLater with
            ⟨first, second, rfl, rfl⟩
          refine ⟨g :: first, second, rfl, ?_⟩
          rw [List.flatten_cons, List.length_append,
            Nat.add_assoc]
  · rintro ⟨first, second, rfl, rfl⟩
    rw [ends_append]
    rcases List.eq_nil_or_concat first with rfl | ⟨A, g, rfl⟩
    · simp
    · rw [List.concat_eq_append, ends_append]
      simp [ends, Nat.add_assoc]

end Segmentation

------------------------------------------------------------
-- Boundaries
------------------------------------------------------------

namespace Segmentation

variable (seg : Segmentation α)

/- The cluster boundaries: zero, and each cluster's end. -/
def bounds
    (s : List α) : List Nat :=
  0 :: ends 0 (seg.clusters s)

/- Whether two texts side by side share a cluster. -/
def joins
    (before after : List α) : Bool :=
  !(seg.bounds (before ++ after)).contains before.length

variable {seg} {s : List α} {c : Nat}

theorem mem_bounds_iff :
    c ∈ seg.bounds s ↔
      ∃ first second,
        seg.clusters s = first ++ second ∧
          c = first.flatten.length := by
  unfold bounds
  rw [mem_ends_iff]
  simp only [Nat.zero_add]

theorem length_mem_bounds
    (seg : Segmentation α)
    (s : List α) :
    s.length ∈ seg.bounds s := by
  refine
    mem_bounds_iff.mpr ⟨seg.clusters s, [], by simp, ?_⟩
  rw [seg.flatten_clusters]

theorem zero_mem_bounds
    (seg : Segmentation α)
    (s : List α) :
    0 ∈ seg.bounds s :=
  List.mem_cons_self

theorem le_length_of_mem_bounds
    (hMember : c ∈ seg.bounds s) :
    c ≤ s.length := by
  rcases List.mem_cons.mp hMember with rfl | hEnd
  · exact Nat.zero_le _
  · have hLe := (le_of_mem_ends hEnd).2
    rw [seg.flatten_clusters] at hLe
    omega

theorem mem_bounds_of_joins_eq_false
    {before after : List α}
    (hApart : seg.joins before after = false) :
    before.length ∈ seg.bounds (before ++ after) := by
  simpa [joins] using hApart

/- Boundaries come in order. -/
theorem pairwise_bounds
    (seg : Segmentation α)
    (s : List α) :
    (seg.bounds s).Pairwise (· ≤ ·) := by
  have hEnds (n : Nat) (gs : List (List α)) :
      (n :: ends n gs).Pairwise (· ≤ ·) := by
    induction gs generalizing n with
    | nil => exact List.pairwise_singleton _ n
    | cons g rest ih =>
        refine List.pairwise_cons.mpr ⟨?_, ih _⟩
        intro b hMember
        exact (le_of_mem_ends hMember).1
  exact hEnds 0 (seg.clusters s)

theorem getElem?_bounds_le
    {i j b b' : Nat}
    (hLe : i ≤ j)
    (hB : (seg.bounds s)[i]? = some b)
    (hB' : (seg.bounds s)[j]? = some b') :
    b ≤ b' := by
  rcases Nat.eq_or_lt_of_le hLe with rfl | hLt
  · rw [hB] at hB'
    exact Nat.le_of_eq (Option.some.inj hB')
  · rcases List.getElem?_eq_some_iff.mp hB with ⟨hI, rfl⟩
    rcases List.getElem?_eq_some_iff.mp hB' with ⟨hJ, rfl⟩
    exact
      List.pairwise_iff_getElem.mp (seg.pairwise_bounds s) i j
        hI hJ hLt

/- A boundary cuts the text where it cuts the clusters. -/
theorem take_drop_of_split
    {first second : List (List α)}
    (hSplit : seg.clusters s = first ++ second) :
    first.flatten = s.take first.flatten.length ∧
      second.flatten = s.drop first.flatten.length := by
  have hText : s = first.flatten ++ second.flatten := by
    rw [← List.flatten_append, ← hSplit,
      seg.flatten_clusters]
  constructor
  · conv_rhs => rw [hText]
    rw [List.take_left]
  · conv_rhs => rw [hText]
    rw [List.drop_left]

/- The first boundary from some place on. -/
theorem find?_from
    (seg : Segmentation α)
    {n : Nat}
    (hLe : n ≤ s.length) :
    ∃ b, (seg.bounds s).find? (fun b => n ≤ b) = some b ∧
      b ∈ seg.bounds s := by
  have hSome :
      ((seg.bounds s).find? (fun b => n ≤ b)).isSome :=
    List.find?_isSome.mpr
      ⟨s.length, length_mem_bounds seg s, by simpa using hLe⟩
  rcases Option.isSome_iff_exists.mp hSome with ⟨b, hFind⟩
  exact ⟨b, hFind, List.mem_of_find?_eq_some hFind⟩

/- After a boundary comes the end of the next cluster. -/
theorem find?_next
    {first second : List (List α)}
    (hSplit : seg.clusters s = first ++ second) :
    (seg.bounds s).find?
        (fun b => first.flatten.length < b) =
      second.head?.map
        (fun g => first.flatten.length + g.length) := by
  have hFirst :
      (0 :: ends 0 first).find?
          (fun b => first.flatten.length < b) = none := by
    rw [List.find?_eq_none]
    intro b hMember
    have hLe : b ≤ first.flatten.length := by
      rcases List.mem_cons.mp hMember with rfl | hEnd
      · exact Nat.zero_le _
      · have hBound := (le_of_mem_ends hEnd).2
        omega
    simpa using hLe
  unfold bounds
  rw [hSplit, ends_append, Nat.zero_add, ← List.cons_append,
    List.find?_append, hFirst, Option.none_or]
  cases second with
  | nil => rfl
  | cons g rest =>
      have hG : g ≠ [] := by
        rintro rfl
        exact seg.nonempty s (by simp [hSplit])
      have hLength := List.length_pos_of_ne_nil hG
      simp [ends, hLength]

/- Before a boundary comes the start of the last cluster. -/
theorem find?_previous
    {first second : List (List α)}
    (hSplit : seg.clusters s = first ++ second) :
    (seg.bounds s).reverse.find?
        (fun b => b < first.flatten.length) =
      first.getLast?.map
        (fun _ => first.dropLast.flatten.length) := by
  have hSecond :
      (ends first.flatten.length second).reverse.find?
          (fun b => b < first.flatten.length) = none := by
    rw [List.find?_eq_none]
    intro b hMember
    have hLe := (le_of_mem_ends (List.mem_reverse.mp hMember)).1
    simpa using hLe
  unfold bounds
  rw [hSplit, ends_append, Nat.zero_add, ← List.cons_append,
    List.reverse_append, List.find?_append, hSecond,
    Option.none_or]
  rcases List.eq_nil_or_concat first with rfl | ⟨A, g, rfl⟩
  · rfl
  · rw [List.concat_eq_append]
    have hG : g ≠ [] := by
      rintro rfl
      exact seg.nonempty s (by simp [hSplit])
    have hLength := List.length_pos_of_ne_nil hG
    -- the start of the last cluster is the last end before it
    have hLast :
        ∃ earlier,
          0 :: ends 0 A = earlier ++ [A.flatten.length] := by
      rcases List.eq_nil_or_concat A with rfl | ⟨B, h, rfl⟩
      · exact ⟨[], rfl⟩
      · rw [List.concat_eq_append, ends_append]
        exact
          ⟨0 :: ends 0 B, by simp [ends]⟩
    rcases hLast with ⟨earlier, hLast⟩
    rw [ends_append, ← List.cons_append, hLast]
    simp [ends, hLength]

end Segmentation
