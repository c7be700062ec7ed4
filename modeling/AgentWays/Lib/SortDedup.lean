import Mathlib.Data.List.Destutter
import Mathlib.Data.List.Lex
import Mathlib.Data.List.Sort

/-
  A list sorted and rid of its repeats, as `Vec::sort` and
  then `Vec::dedup` leave it. What is left depends on the
  members alone, so it is a canonical form of their set.

  Key definitions include:
    * `SortDedup.sorted`

  Main declarations:
    * `SortDedup.mem_sorted`
    * `SortDedup.sorted_congr`
-/

------------------------------------------------------------
-- Sorted Without Repeats
------------------------------------------------------------

namespace SortDedup

variable {α : Type} [LinearOrder α]

/-
  `sort` and then `dedup`, which drops what equals the item
  before it.
-/
def sorted
    (items : List α) : List α :=
  (items.mergeSort (fun a b => decide (a ≤ b))).destutter
    (· ≠ ·)

theorem pairwise_mergeSort
    (items : List α) :
    (items.mergeSort (fun a b => decide (a ≤ b))).Pairwise
      (· ≤ ·) := by
  have hSort :=
    @List.pairwise_mergeSort α (fun a b => decide (a ≤ b))
      (fun a b c hAB hBC => by
        simp only [decide_eq_true_eq] at *
        exact le_trans hAB hBC)
      (fun a b => by
        simp only [Bool.or_eq_true, decide_eq_true_eq]
        exact le_total a b)
      items
  exact hSort.imp (fun h => by simpa using h)

/- Among sorted items the repeats stand together. -/
theorem sorted_eq
    (items : List α) :
    sorted items =
      (items.mergeSort
        (fun a b => decide (a ≤ b))).dedup :=
  (pairwise_mergeSort items).destutter_eq_dedup

theorem mem_sorted
    {items : List α}
    {a : α} :
    a ∈ sorted items ↔ a ∈ items := by
  rw [sorted_eq, List.mem_dedup, List.mem_mergeSort]

theorem sorted_nodup
    (items : List α) :
    (sorted items).Nodup := by
  rw [sorted_eq]
  exact List.nodup_dedup _

theorem sorted_pairwise
    (items : List α) :
    (sorted items).Pairwise (· ≤ ·) := by
  rw [sorted_eq]
  exact (pairwise_mergeSort items).sublist
    (List.dedup_sublist _)

/- Two lists of the same members have one canonical form. -/
theorem sorted_congr
    {first second : List α}
    (hMembers : ∀ a, a ∈ first ↔ a ∈ second) :
    sorted first = sorted second := by
  have hPerm : (sorted first).Perm (sorted second) :=
    (List.perm_ext_iff_of_nodup (sorted_nodup first)
      (sorted_nodup second)).mpr
      (fun a => by rw [mem_sorted, mem_sorted, hMembers])
  exact hPerm.eq_of_pairwise
    (fun a b _ _ hAB hBA => le_antisymm hAB hBA)
    (sorted_pairwise first) (sorted_pairwise second)

end SortDedup
