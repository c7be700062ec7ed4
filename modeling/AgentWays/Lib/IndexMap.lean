import Mathlib.Data.List.Nodup
import Mathlib.Data.List.Perm.Basic
import Mathlib.Tactic.Common

/-
  Maps that keep the order their keys came in, as lists of
  entries with distinct keys.

  An insertion replaces the value of a key that is there and
  appends a new one. A removal puts the last entry in the
  place of the one removed.

  Key definitions include:
    * `IndexMap.find`
    * `IndexMap.insert`
    * `IndexMap.swapRemove`
    * `IndexMap.Distinct`

  Main declarations:
    * `IndexMap.find_insert`
    * `IndexMap.find_swapRemove`
    * `IndexMap.length_eq_of_find_isSome`
-/

------------------------------------------------------------
-- Entries
------------------------------------------------------------

namespace IndexMap

variable {κ α : Type} [DecidableEq κ]

def find
    (k : κ) : List (κ × α) → Option α
| [] => none
| (k', v) :: rest => if k' = k then some v else find k rest

def insert
    (k : κ)
    (v : α) : List (κ × α) → List (κ × α)
| [] => [(k, v)]
| (k', v') :: rest =>
    if k' = k then (k, v) :: rest
    else (k', v') :: insert k v rest

/- The last entry takes the removed one's place. -/
def swapRemove
    (k : κ) : List (κ × α) → List (κ × α)
| [] => []
| (k', v') :: rest =>
    if k' = k then rest.getLast?.toList ++ rest.dropLast
    else (k', v') :: swapRemove k rest

def keys
    (m : List (κ × α)) : List κ :=
  m.map Prod.fst

def Distinct
    (m : List (κ × α)) : Prop :=
  (keys m).Nodup

variable {k k' : κ} {v v' : α} {m n : List (κ × α)}

theorem mem_keys_iff_find :
    k ∈ keys m ↔ (find k m).isSome = true := by
  induction m with
  | nil => simp [keys, find]
  | cons e rest ih =>
      rcases e with ⟨k', v'⟩
      unfold find
      by_cases hSame : k' = k
      · simp [keys, hSame]
      · rw [if_neg hSame, ← ih]
        simp [keys, Ne.symm hSame]

theorem find_eq_none_iff :
    find k m = none ↔ k ∉ keys m := by
  rw [mem_keys_iff_find]
  simp

theorem mem_of_find
    (hFind : find k m = some v) :
    (k, v) ∈ m := by
  induction m with
  | nil => cases hFind
  | cons e rest ih =>
      rcases e with ⟨k', v'⟩
      unfold find at hFind
      split at hFind
      · rename_i hSame
        cases hFind
        subst hSame
        exact List.mem_cons_self
      · exact List.mem_cons_of_mem _ (ih hFind)

theorem find_of_mem
    (hDistinct : Distinct m)
    (hMem : (k, v) ∈ m) :
    find k m = some v := by
  induction m with
  | nil => cases hMem
  | cons e rest ih =>
      rcases e with ⟨k', v'⟩
      have hNodup : (k' :: keys rest).Nodup := hDistinct
      rw [List.nodup_cons] at hNodup
      unfold find
      rcases List.mem_cons.mp hMem with hHead | hRest
      · cases hHead
        rw [if_pos rfl]
      · have hOther : k' ≠ k := by
          rintro rfl
          exact hNodup.1 (List.mem_map_of_mem hRest)
        rw [if_neg hOther]
        exact ih hNodup.2 hRest

end IndexMap

------------------------------------------------------------
-- Insertions
------------------------------------------------------------

namespace IndexMap

variable {κ α : Type} [DecidableEq κ]
variable {k k' : κ} {v v' : α} {m n : List (κ × α)}

theorem find_insert
    (k : κ)
    (v : α)
    (m : List (κ × α))
    (k' : κ) :
    find k' (insert k v m) =
      if k = k' then some v else find k' m := by
  induction m with
  | nil => rfl
  | cons e rest ih =>
      rcases e with ⟨j, w⟩
      unfold insert
      by_cases hHere : j = k
      · subst hHere
        simp only [if_true, find]
        split <;> rfl
      · rw [if_neg hHere]
        simp only [find, ih]
        by_cases hSame : j = k'
        · subst hSame
          simp [Ne.symm hHere]
        · simp [hSame]

@[simp] theorem find_insert_self :
    find k (insert k v m) = some v := by
  rw [find_insert, if_pos rfl]

theorem find_insert_of_ne
    (hOther : k ≠ k') :
    find k' (insert k v m) = find k' m := by
  rw [find_insert, if_neg hOther]

theorem keys_insert
    (k : κ)
    (v : α)
    (m : List (κ × α)) :
    keys (insert k v m) =
      if k ∈ keys m then keys m else keys m ++ [k] := by
  induction m with
  | nil => rfl
  | cons e rest ih =>
      rcases e with ⟨j, w⟩
      unfold insert
      by_cases hHere : j = k
      · subst hHere
        simp [keys]
      · rw [if_neg hHere]
        have hCons :
            keys ((j, w) :: insert k v rest) =
              j :: keys (insert k v rest) := rfl
        rw [hCons, ih]
        have hMem :
            k ∈ keys ((j, w) :: rest) ↔ k ∈ keys rest := by
          simp [keys, Ne.symm hHere]
        simp only [hMem]
        split <;> rfl

theorem mem_keys_insert :
    k' ∈ keys (insert k v m) ↔ k' = k ∨ k' ∈ keys m := by
  rw [keys_insert]
  split
  · rename_i hMem
    constructor
    · exact Or.inr
    · rintro (rfl | hOld)
      · exact hMem
      · exact hOld
  · rw [List.mem_append, List.mem_singleton]
    exact Or.comm

theorem distinct_insert
    (hDistinct : Distinct m)
    (k : κ)
    (v : α) :
    Distinct (insert k v m) := by
  unfold Distinct
  rw [keys_insert]
  split
  · exact hDistinct
  · rename_i hNew
    exact
      List.nodup_append.mpr
        ⟨hDistinct, List.nodup_singleton k, by
          rintro a hOld b hB rfl
          exact hNew (List.mem_singleton.mp hB ▸ hOld)⟩

theorem mem_insert
    {e : κ × α}
    (hMem : e ∈ insert k v m) :
    e = (k, v) ∨ e ∈ m := by
  induction m with
  | nil => exact Or.inl (List.mem_singleton.mp hMem)
  | cons head rest ih =>
      rcases head with ⟨j, w⟩
      unfold insert at hMem
      split at hMem
      · rcases List.mem_cons.mp hMem with hHead | hRest
        · exact Or.inl hHead
        · exact Or.inr (List.mem_cons_of_mem _ hRest)
      · rcases List.mem_cons.mp hMem with hHead | hRest
        · exact Or.inr (hHead ▸ List.mem_cons_self)
        · rcases ih hRest with hNew | hOld
          · exact Or.inl hNew
          · exact Or.inr (List.mem_cons_of_mem _ hOld)

/- The last value inserted at a key is the one that stays. -/
theorem insert_insert
    (k : κ)
    (v v' : α)
    (m : List (κ × α)) :
    insert k v' (insert k v m) = insert k v' m := by
  induction m with
  | nil => simp [insert]
  | cons e rest ih =>
      rcases e with ⟨j, w⟩
      unfold insert
      by_cases hHere : j = k
      · simp [hHere, insert]
      · simp [hHere, insert, ih]

theorem insert_of_find
    (hFind : find k m = some v) :
    insert k v m = m := by
  induction m with
  | nil => cases hFind
  | cons e rest ih =>
      rcases e with ⟨j, w⟩
      unfold find at hFind
      unfold insert
      split at hFind
      · rename_i hHere
        cases hFind
        subst hHere
        rw [if_pos rfl]
      · rename_i hOther
        rw [if_neg hOther, ih hFind]

end IndexMap

------------------------------------------------------------
-- Removals
------------------------------------------------------------

namespace IndexMap

variable {κ α : Type} [DecidableEq κ]
variable {k k' : κ} {v v' : α} {m n : List (κ × α)}

/- A removal leaves the other entries, in some order. -/
theorem swapRemove_perm
    (hDistinct : Distinct m)
    (k : κ) :
    (swapRemove k m).Perm (m.filter (fun e => e.1 ≠ k)) := by
  induction m with
  | nil => exact List.Perm.refl _
  | cons e rest ih =>
      rcases e with ⟨j, w⟩
      have hNodup : (j :: keys rest).Nodup := hDistinct
      rw [List.nodup_cons] at hNodup
      unfold swapRemove
      by_cases hHere : j = k
      · subst hHere
        have hAll :
            rest.filter (fun e => e.1 ≠ j) = rest := by
          rw [List.filter_eq_self]
          intro e hMem
          simp only [ne_eq, decide_not, Bool.not_eq_true',
            decide_eq_false_iff_not]
          rintro rfl
          exact hNodup.1 (List.mem_map_of_mem hMem)
        rw [if_pos rfl, List.filter_cons_of_neg (by simp),
          hAll]
        cases hLast : rest.getLast? with
        | none =>
            rw [List.getLast?_eq_none_iff] at hLast
            rw [hLast]
            exact List.Perm.refl _
        | some last =>
            rcases List.getLast?_eq_some_iff.mp hLast with
              ⟨init, rfl⟩
            rw [List.dropLast_concat]
            exact List.perm_append_comm
      · rw [if_neg hHere,
          List.filter_cons_of_pos (by simpa using hHere)]
        exact (ih hNodup.2).cons _

theorem distinct_swapRemove
    (hDistinct : Distinct m)
    (k : κ) :
    Distinct (swapRemove k m) := by
  have hPerm := (swapRemove_perm hDistinct k).map Prod.fst
  apply hPerm.nodup_iff.mpr
  exact
    List.Nodup.sublist
      (List.Sublist.map Prod.fst List.filter_sublist)
      hDistinct

theorem mem_swapRemove
    (hDistinct : Distinct m)
    {e : κ × α} :
    e ∈ swapRemove k m ↔ e ∈ m ∧ e.1 ≠ k := by
  rw [(swapRemove_perm hDistinct k).mem_iff,
    List.mem_filter]
  simp

theorem find_swapRemove
    (hDistinct : Distinct m)
    (k k' : κ) :
    find k' (swapRemove k m) =
      if k = k' then none else find k' m := by
  split
  · rename_i hSame
    subst hSame
    rw [find_eq_none_iff]
    intro hMem
    rcases List.mem_map.mp hMem with ⟨e, hEntry, hKey⟩
    exact
      ((mem_swapRemove hDistinct).mp hEntry).2 hKey
  · rename_i hOther
    cases hFind : find k' m with
    | none =>
        rw [find_eq_none_iff] at hFind ⊢
        intro hMem
        rcases List.mem_map.mp hMem with ⟨e, hEntry, hKey⟩
        apply hFind
        rw [← hKey]
        exact
          List.mem_map_of_mem
            ((mem_swapRemove hDistinct).mp hEntry).1
    | some v =>
        apply find_of_mem (distinct_swapRemove hDistinct k)
        rw [mem_swapRemove hDistinct]
        exact ⟨mem_of_find hFind, Ne.symm hOther⟩

theorem length_swapRemove
    (hMem : k ∈ keys m) :
    (swapRemove k m).length + 1 = m.length := by
  induction m with
  | nil => cases hMem
  | cons e rest ih =>
      rcases e with ⟨j, w⟩
      unfold swapRemove
      by_cases hHere : j = k
      · rw [if_pos hHere]
        cases hLast : rest.getLast? with
        | none =>
            rw [List.getLast?_eq_none_iff] at hLast
            rw [hLast]
            rfl
        | some last =>
            rcases List.getLast?_eq_some_iff.mp hLast with
              ⟨init, rfl⟩
            simp
      · have hRest : k ∈ keys rest := by
          rcases List.mem_cons.mp hMem with hHead | hTail
          · exact absurd hHead.symm hHere
          · exact hTail
        rw [if_neg hHere, List.length_cons, ih hRest,
          List.length_cons]

/- A map is left empty where the key was its only one. -/
theorem swapRemove_eq_nil_iff
    (hMem : k ∈ keys m) :
    swapRemove k m = [] ↔ ∃ v, m = [(k, v)] := by
  constructor
  · intro hNil
    have hLength := length_swapRemove hMem
    rw [hNil] at hLength
    rcases List.length_eq_one_iff.mp hLength.symm with
      ⟨e, rfl⟩
    have hKey : k = e.1 := List.mem_singleton.mp hMem
    exact ⟨e.2, by rw [hKey]⟩
  · rintro ⟨v, rfl⟩
    simp [swapRemove]

theorem insert_ne_nil :
    insert k v m ≠ [] := by
  intro hNil
  have hFind : find k (insert k v m) = some v :=
    find_insert_self
  rw [hNil] at hFind
  cases hFind

/- The keys of a map are the removed one and those left. -/
theorem keys_perm_of_mem
    (hDistinct : Distinct m)
    (hMem : k ∈ keys m) :
    (keys m).Perm (k :: keys (swapRemove k m)) := by
  have hLeft := distinct_swapRemove hDistinct k
  rw [List.perm_ext_iff_of_nodup hDistinct]
  · intro k'
    rw [List.mem_cons, IndexMap.mem_keys_iff_find,
      IndexMap.mem_keys_iff_find (m := swapRemove k m),
      find_swapRemove hDistinct]
    by_cases hSame : k = k'
    · subst hSame
      rw [mem_keys_iff_find] at hMem
      simp [hMem]
    · simp [hSame, Ne.symm hSame]
  · rw [List.nodup_cons]
    refine ⟨?_, hLeft⟩
    rw [← find_eq_none_iff, find_swapRemove hDistinct,
      if_pos rfl]

theorem mem_keys_swapRemove
    (hDistinct : Distinct m) :
    k' ∈ keys (swapRemove k m) ↔ k' ∈ keys m ∧ k' ≠ k := by
  rw [mem_keys_iff_find, mem_keys_iff_find,
    find_swapRemove hDistinct]
  by_cases hSame : k = k'
  · simp [hSame]
  · simp [hSame, Ne.symm hSame]

omit [DecidableEq κ] in
/- Maps with the same keys have as many entries. -/
theorem length_eq_of_keys
    {β : Type}
    {n : List (κ × β)}
    (hM : Distinct m)
    (hN : Distinct n)
    (hKeys : ∀ k, k ∈ keys m ↔ k ∈ keys n) :
    m.length = n.length := by
  have hPerm : (keys m).Perm (keys n) :=
    (List.perm_ext_iff_of_nodup hM hN).mpr hKeys
  simpa [keys] using hPerm.length_eq

end IndexMap
