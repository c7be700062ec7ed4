import Mathlib.Data.List.Induction
import Mathlib.Order.Compare
import Mathlib.Order.Lattice

/-
  The items of the greatest rank, as one pass over a list
  collects them: an item of a greater rank starts over, one
  of the same rank joins, and one of a lesser rank is left.

  Key definitions include:
    * `TopRanked.tops`

  Main declarations:
    * `TopRanked.mem_tops`
-/

------------------------------------------------------------
-- Tops
------------------------------------------------------------

namespace TopRanked

variable {α ρ : Type} [LinearOrder ρ]
variable (rank : α → ρ)

def step
    (top : List α)
    (a : α) : List α :=
  match top.head? with
  | none => [a]
  | some b =>
      match compare (rank a) (rank b) with
      | .lt => top
      | .eq => top ++ [a]
      | .gt => [a]

def tops
    (items : List α) : List α :=
  items.foldl (step rank) []

theorem tops_concat
    (items : List α)
    (a : α) :
    tops rank (items ++ [a]) =
      step rank (tops rank items) a :=
  by simp [tops]

theorem tops_ne_nil
    {items : List α}
    (hNe : items ≠ []) :
    tops rank items ≠ [] := by
  rcases List.eq_nil_or_concat items with
    rfl | ⟨init, a, rfl⟩
  · exact absurd rfl hNe
  · rw [List.concat_eq_append, tops_concat]
    unfold step
    split
    · simp
    · rename_i b hHead
      split
      · exact fun hNil => by simp [hNil] at hHead
      · simp
      · simp

/- The pass keeps the items of the greatest rank. -/
theorem mem_tops
    {items : List α}
    {a : α} :
    a ∈ tops rank items ↔
      a ∈ items ∧ ∀ b ∈ items, rank b ≤ rank a := by
  induction items using List.reverseRecOn generalizing a with
  | nil => simp [tops]
  | append_singleton items last ih =>
      rw [tops_concat]
      unfold step
      split
      · rename_i hHead
        rw [List.head?_eq_none_iff] at hHead
        have hNil : items = [] := by
          by_contra hNe
          exact tops_ne_nil rank hNe hHead
        subst hNil
        simp only [List.nil_append, List.mem_singleton]
        constructor
        · rintro rfl
          simp
        · exact fun h => h.1
      · rename_i top hHead
        obtain ⟨hTop, hMax⟩ :=
          ih.mp (List.mem_of_head? hHead)
        have hForall :
            (∀ b ∈ items ++ [last], rank b ≤ rank a) ↔
              (∀ b ∈ items, rank b ≤ rank a) ∧
                rank last ≤ rank a := by
          simp [or_imp, forall_and]
        rw [hForall, List.mem_append, List.mem_singleton]
        split
        · rename_i hLt
          rw [compare_lt_iff_lt] at hLt
          rw [ih]
          constructor
          · rintro ⟨hMem, hLe⟩
            exact ⟨.inl hMem, hLe,
              hLt.le.trans (hLe top hTop)⟩
          · rintro ⟨hMem | rfl, hLe, -⟩
            · exact ⟨hMem, hLe⟩
            · exact absurd (hLe top hTop) (not_le.mpr hLt)
        · rename_i hEq
          rw [compare_eq_iff_eq] at hEq
          rw [List.mem_append, List.mem_singleton, ih]
          constructor
          · rintro (⟨hMem, hLe⟩ | rfl)
            · exact ⟨.inl hMem, hLe,
                hEq.le.trans (hLe top hTop)⟩
            · exact ⟨.inr rfl,
                fun b hB => (hMax b hB).trans hEq.ge, le_rfl⟩
          · rintro ⟨hMem | rfl, hLe, -⟩
            · exact .inl ⟨hMem, hLe⟩
            · exact .inr rfl
        · rename_i hGt
          rw [compare_gt_iff_gt] at hGt
          rw [List.mem_singleton]
          constructor
          · rintro rfl
            exact ⟨.inr rfl,
              fun b hB => (hMax b hB).trans hGt.le, le_rfl⟩
          · rintro ⟨hMem | rfl, hLe, hLast⟩
            · exact absurd (hLast.trans (hMax a hMem))
                (not_le.mpr hGt)
            · rfl

end TopRanked
