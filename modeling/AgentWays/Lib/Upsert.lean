import Mathlib.Data.List.Induction
import Mathlib.Data.List.Nodup
import Mathlib.Tactic.Common

/-
  Lists in which an item takes the place of the one with its
  key.

  An item may have no key, and is then put at the end. A
  list made of items put one by one has each key once, and
  holds the last item of each key and every one with none.

  Key definitions include:
    * `Upsert.put`
    * `Upsert.all`

  Main declarations:
    * `Upsert.nodup_all`
    * `Upsert.mem_all_of_last`
-/

------------------------------------------------------------
-- One Item
------------------------------------------------------------

namespace Upsert

variable {α κ : Type} [DecidableEq κ]

/- An item over the one with its key, or at the end. -/
def put
    (key : α → Option κ)
    (e : α) : List α → List α
| [] => [e]
| d :: rest =>
    if (key e).isSome ∧ key d = key e then e :: rest
    else d :: put key e rest

/- Items put one by one. -/
def all
    (key : α → Option κ)
    (items : List α) : List α :=
  items.foldl (fun acc e => put key e acc) []

variable {key : α → Option κ} {d e : α} {items : List α}

theorem mem_put_self
    (key : α → Option κ)
    (e : α)
    (items : List α) :
    e ∈ put key e items := by
  induction items with
  | nil => exact List.mem_cons_self
  | cons d rest ih =>
      unfold put
      split
      · exact List.mem_cons_self
      · exact List.mem_cons_of_mem d ih

theorem mem_of_mem_put
    (hMember : d ∈ put key e items) :
    d = e ∨ d ∈ items := by
  induction items with
  | nil => exact Or.inl (List.mem_singleton.mp hMember)
  | cons c rest ih =>
      unfold put at hMember
      split at hMember
      · rcases List.mem_cons.mp hMember with hHead | hRest
        · exact Or.inl hHead
        · exact Or.inr (List.mem_cons_of_mem c hRest)
      · rcases List.mem_cons.mp hMember with rfl | hRest
        · exact Or.inr List.mem_cons_self
        · rcases ih hRest with hNew | hOld
          · exact Or.inl hNew
          · exact Or.inr (List.mem_cons_of_mem c hOld)

/- An item stays that has no key, or another one. -/
theorem mem_put_of_ne
    (hMember : d ∈ items)
    (hOther : key d = none ∨ key d ≠ key e) :
    d ∈ put key e items := by
  induction items with
  | nil => cases hMember
  | cons c rest ih =>
      unfold put
      split
      · rename_i hSame
        rcases List.mem_cons.mp hMember with rfl | hRest
        · rcases hOther with hNone | hOther
          · rw [← hSame.2, hNone] at hSame
            cases hSame.1
          · exact absurd hSame.2 hOther
        · exact List.mem_cons_of_mem e hRest
      · rcases List.mem_cons.mp hMember with rfl | hRest
        · exact List.mem_cons_self
        · exact List.mem_cons_of_mem c (ih hRest)

/- A key that is there stays in its place, a new one is last. -/
theorem filterMap_put
    (key : α → Option κ)
    (e : α)
    (items : List α) :
    (put key e items).filterMap key = items.filterMap key ∨
      ∃ k, key e = some k ∧ k ∉ items.filterMap key ∧
        (put key e items).filterMap key =
          items.filterMap key ++ [k] := by
  induction items with
  | nil =>
      cases hKey : key e with
      | none => exact Or.inl (by simp [put, hKey])
      | some k =>
          exact Or.inr ⟨k, rfl, by simp, by simp [put, hKey]⟩
  | cons d rest ih =>
      unfold put
      split
      · rename_i hSame
        refine Or.inl ?_
        rw [List.filterMap_cons, List.filterMap_cons, hSame.2]
      · rename_i hOther
        rcases ih with hSame | ⟨k, hKey, hNot, hLast⟩
        · refine Or.inl ?_
          rw [List.filterMap_cons, List.filterMap_cons, hSame]
        · refine Or.inr ⟨k, hKey, ?_, ?_⟩
          · have hD : key d ≠ some k := by
              intro hD
              exact hOther ⟨by simp [hKey], by rw [hD, hKey]⟩
            rw [List.filterMap_cons]
            cases hAt : key d with
            | none => exact hNot
            | some k' =>
                simp only [List.mem_cons, not_or]
                refine ⟨?_, hNot⟩
                rintro rfl
                exact hD hAt
          · rw [List.filterMap_cons, List.filterMap_cons, hLast]
            cases key d <;> rfl

theorem nodup_put
    (hNodup : (items.filterMap key).Nodup)
    (e : α) :
    ((put key e items).filterMap key).Nodup := by
  rcases filterMap_put key e items with
    hSame | ⟨k, -, hNot, hLast⟩
  · rw [hSame]
    exact hNodup
  · rw [hLast]
    refine
      List.nodup_append.mpr
        ⟨hNodup, List.nodup_singleton k, ?_⟩
    rintro a hOld b hNew rfl
    rw [List.mem_singleton.mp hNew] at hOld
    exact hNot hOld

end Upsert

------------------------------------------------------------
-- All Items
------------------------------------------------------------

namespace Upsert

variable {α κ : Type} [DecidableEq κ]
variable {key : α → Option κ} {d e : α} {items : List α}

theorem all_concat
    (key : α → Option κ)
    (items : List α)
    (e : α) :
    all key (items ++ [e]) = put key e (all key items) := by
  simp [all]

/- Each key is there once. -/
theorem nodup_all
    (key : α → Option κ)
    (items : List α) :
    ((all key items).filterMap key).Nodup := by
  induction items using List.reverseRecOn with
  | nil => exact List.nodup_nil
  | append_singleton items e ih =>
      rw [all_concat]
      exact nodup_put ih e

theorem mem_of_mem_all
    (hMember : d ∈ all key items) :
    d ∈ items := by
  induction items using List.reverseRecOn with
  | nil => cases hMember
  | append_singleton items e ih =>
      rw [all_concat] at hMember
      rcases mem_of_mem_put hMember with rfl | hOld
      · exact List.mem_append_right items List.mem_cons_self
      · exact List.mem_append_left [e] (ih hOld)

/- An item is there where no later one takes its place. -/
theorem mem_all_of_last
    {earlier later : List α}
    (hLast :
      key e = none ∨ ∀ d ∈ later, key d ≠ key e) :
    e ∈ all key (earlier ++ e :: later) := by
  induction later using List.reverseRecOn with
  | nil =>
      rw [all_concat]
      exact mem_put_self key e _
  | append_singleton later d ih =>
      rw [← List.cons_append, ← List.append_assoc, all_concat]
      apply mem_put_of_ne
      · apply ih
        exact
          hLast.imp_right
            (fun hNone c hMember =>
              hNone c (List.mem_append_left [d] hMember))
      · exact
          hLast.imp_right
            (fun hNone =>
              (hNone d
                (List.mem_append_right later
                  List.mem_cons_self)).symm)

end Upsert
