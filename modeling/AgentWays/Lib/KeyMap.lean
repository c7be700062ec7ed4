import Mathlib.Data.List.Sort
import Mathlib.Order.Basic

/-
  Maps with ordered keys, as lists of entries whose keys
  increase.

  Two maps that look up the same at every key are equal, so
  a document made of such maps is compared by its meaning
  and not by the order its keys were written in.

  Key definitions include:
    * `KeyMap`
    * `KeyMap.get?`
    * `KeyMap.insert`
    * `KeyMap.erase`
    * `KeyMap.assign`
    * `KeyMap.collect`, the map a loop over keys fills
    * `KeyMap.filterMap`, the map a loop over a map fills
    * `KeyMap.updateAll`, a map updated by a loop over one
    * `KeyMap.All`, a property of every entry

  Main declarations:
    * `KeyMap.ext_get?`
    * `KeyMap.get?_insert`
    * `KeyMap.get?_erase`
    * `KeyMap.get?_collect`
    * `KeyMap.get?_filterMap`
    * `KeyMap.get?_updateAll`
-/

------------------------------------------------------------
-- Entry Lists
------------------------------------------------------------

namespace KeyMap

variable {κ α : Type} [LinearOrder κ]

/- The value of a key in an entry list. -/
def find
    (k : κ) : List (κ × α) → Option α
| [] => none
| (k', v) :: rest => if k = k' then some v else find k rest

/- The entry put in its place, or over the key's old one. -/
def put
    (k : κ)
    (v : α) : List (κ × α) → List (κ × α)
| [] => [(k, v)]
| (k', v') :: rest =>
    if k < k' then (k, v) :: (k', v') :: rest
    else if k = k' then (k, v) :: rest
    else (k', v') :: put k v rest

/- The keys of the list increase. -/
def Increasing
    (entries : List (κ × α)) : Prop :=
  (entries.map Prod.fst).Pairwise (· < ·)

theorem increasing_cons
    {k : κ}
    {v : α}
    {rest : List (κ × α)} :
    Increasing ((k, v) :: rest) ↔
      (∀ e ∈ rest, k < e.1) ∧ Increasing rest := by
  simp [Increasing]

/- Whether keys increase is for the keys alone to say. -/
theorem Increasing.of_keys_eq
    {β : Type}
    {entries : List (κ × α)}
    {entries' : List (κ × β)}
    (hSorted : Increasing entries)
    (hKeys :
      entries'.map Prod.fst = entries.map Prod.fst) :
    Increasing entries' := by
  unfold Increasing
  rw [hKeys]
  exact hSorted

/- A key before all the others is found nowhere. -/
theorem find_eq_none_of_lt
    {k : κ}
    {entries : List (κ × α)}
    (hBefore : ∀ e ∈ entries, k < e.1) :
    find k entries = none := by
  induction entries with
  | nil => rfl
  | cons e rest ih =>
      rcases e with ⟨k', v⟩
      have hHead : k < k' := hBefore (k', v) (by simp)
      have hRest :=
        ih (fun e hMem => hBefore e (by simp [hMem]))
      simp only [find, if_neg (ne_of_lt hHead), hRest]

theorem mem_put
    {k : κ}
    {v : α}
    {entries : List (κ × α)}
    {e : κ × α}
    (hMem : e ∈ put k v entries) :
    e = (k, v) ∨ e ∈ entries := by
  induction entries with
  | nil => simpa [put] using hMem
  | cons head rest ih =>
      rcases head with ⟨k', v'⟩
      unfold put at hMem
      split at hMem
      · rcases List.mem_cons.mp hMem with hHead | hTail
        · exact Or.inl hHead
        · exact Or.inr hTail
      · split at hMem
        · rcases List.mem_cons.mp hMem with hHead | hTail
          · exact Or.inl hHead
          · exact Or.inr (List.mem_cons_of_mem _ hTail)
        · rcases List.mem_cons.mp hMem with hHead | hTail
          · exact Or.inr (by simp [hHead])
          · rcases ih hTail with hNew | hOld
            · exact Or.inl hNew
            · exact Or.inr (List.mem_cons_of_mem _ hOld)

theorem increasing_put
    {entries : List (κ × α)}
    (hSorted : Increasing entries)
    (k : κ)
    (v : α) :
    Increasing (put k v entries) := by
  induction entries with
  | nil => simp [put, Increasing]
  | cons head rest ih =>
      rcases head with ⟨k', v'⟩
      rcases increasing_cons.mp hSorted with
        ⟨hHead, hRest⟩
      unfold put
      split
      · rename_i hLt
        refine increasing_cons.mpr ⟨?_, hSorted⟩
        intro e hMem
        rcases List.mem_cons.mp hMem with rfl | hTail
        · exact hLt
        · exact lt_trans hLt (hHead e hTail)
      · rename_i hNotLt
        split
        · rename_i hEq
          subst hEq
          exact increasing_cons.mpr ⟨hHead, hRest⟩
        · rename_i hNe
          refine increasing_cons.mpr ⟨?_, ih hRest⟩
          intro e hMem
          rcases mem_put hMem with rfl | hOld
          · exact lt_of_le_of_ne (not_lt.mp hNotLt)
              (Ne.symm hNe)
          · exact hHead e hOld

theorem find_put
    {entries : List (κ × α)}
    (hSorted : Increasing entries)
    (k k' : κ)
    (v : α) :
    find k' (put k v entries) =
      if k' = k then some v else find k' entries := by
  induction entries with
  | nil => simp [put, find]
  | cons head rest ih =>
      rcases head with ⟨key, value⟩
      have hRest := (increasing_cons.mp hSorted).2
      unfold put
      split
      · simp only [find]
      · rename_i hNotLt
        split
        · rename_i hEq
          subst hEq
          simp only [find]
          split <;> rfl
        · rename_i hNe
          simp only [find, ih hRest]
          by_cases hKey : k' = key
          · have hOther : k' ≠ k := by
              rw [hKey]
              exact Ne.symm hNe
            simp [hKey, Ne.symm hNe]
          · simp [hKey]

theorem find_filter
    {entries : List (κ × α)}
    (k k' : κ) :
    find k' (entries.filter (fun e => e.1 ≠ k)) =
      if k' = k then none else find k' entries := by
  induction entries with
  | nil => simp [find]
  | cons head rest ih =>
      rcases head with ⟨key, value⟩
      by_cases hDropped : key = k
      · subst hDropped
        rw [List.filter_cons_of_neg (by simp), ih]
        by_cases hKey : k' = key
        · simp [hKey]
        · simp [find, hKey]
      · rw [List.filter_cons_of_pos (by simpa using hDropped)]
        simp only [find, ih]
        by_cases hKey : k' = key
        · simp [hKey, hDropped]
        · simp [hKey]

/- Increasing lists that find the same are the same. -/
theorem eq_of_find_eq
    {xs ys : List (κ × α)}
    (hXs : Increasing xs)
    (hYs : Increasing ys)
    (hFind : ∀ k, find k xs = find k ys) :
    xs = ys := by
  induction xs generalizing ys with
  | nil =>
      cases ys with
      | nil => rfl
      | cons y rest =>
          have hKey := hFind y.1
          simp [find] at hKey
  | cons x xs ih =>
      cases ys with
      | nil =>
          have hKey := hFind x.1
          simp [find] at hKey
      | cons y ys =>
          rcases x with ⟨kx, vx⟩
          rcases y with ⟨ky, vy⟩
          rcases increasing_cons.mp hXs with ⟨hX, hXsTail⟩
          rcases increasing_cons.mp hYs with ⟨hY, hYsTail⟩
          -- The smaller head would be found on one side only.
          have hKeys : kx = ky := by
            rcases lt_trichotomy kx ky with hLt | hEq | hGt
            · have hHead := hFind kx
              have hNone : find kx ys = none :=
                find_eq_none_of_lt
                  (fun e hMem => lt_trans hLt (hY e hMem))
              simp [find, ne_of_lt hLt, hNone] at hHead
            · exact hEq
            · have hHead := hFind ky
              have hNone : find ky xs = none :=
                find_eq_none_of_lt
                  (fun e hMem => lt_trans hGt (hX e hMem))
              simp [find, ne_of_lt hGt, hNone] at hHead
          subst hKeys
          have hValues : vx = vy := by
            have hHead := hFind kx
            simpa [find] using hHead
          subst hValues
          have hRest : xs = ys := by
            apply ih hXsTail hYsTail
            intro k
            have hKey := hFind k
            by_cases hHead : k = kx
            · subst hHead
              rw [find_eq_none_of_lt hX,
                find_eq_none_of_lt hY]
            · simpa [find, hHead] using hKey
          rw [hRest]

end KeyMap

------------------------------------------------------------
-- Maps
------------------------------------------------------------

/-
  A map with ordered keys.
-/
structure KeyMap (κ α : Type) [LinearOrder κ] where
  entries : List (κ × α)
  sorted : KeyMap.Increasing entries

namespace KeyMap

variable {κ α β : Type} [LinearOrder κ]

instance [DecidableEq α] : DecidableEq (KeyMap κ α) :=
  fun m n =>
    decidable_of_iff (m.entries = n.entries)
      (by cases m; cases n; simp)

/- The value of a key. -/
def get?
    (m : KeyMap κ α)
    (k : κ) : Option α :=
  find k m.entries

/- The map with no keys. -/
def empty : KeyMap κ α where
  entries := []
  sorted := List.Pairwise.nil

instance : Inhabited (KeyMap κ α) :=
  ⟨empty⟩

/- The key given a value, over its old one if it has one. -/
def insert
    (m : KeyMap κ α)
    (k : κ)
    (v : α) : KeyMap κ α where
  entries := put k v m.entries
  sorted := increasing_put m.sorted k v

/- The map without a key. -/
def erase
    (m : KeyMap κ α)
    (k : κ) : KeyMap κ α where
  entries := m.entries.filter (fun e => e.1 ≠ k)
  sorted :=
    List.Pairwise.sublist
      (List.Sublist.map Prod.fst List.filter_sublist)
      m.sorted

/- The key given a value, or taken out for want of one. -/
def assign
    (m : KeyMap κ α)
    (k : κ)
    (v : Option α) : KeyMap κ α :=
  match v with
  | some v => m.insert k v
  | none => m.erase k

/- The keys, in order. -/
def keys
    (m : KeyMap κ α) : List κ :=
  m.entries.map Prod.fst

/- Whether the map has no keys. -/
def isEmpty
    (m : KeyMap κ α) : Bool :=
  m.entries.isEmpty

/- A list of entries, a later one over an earlier one. -/
def ofList
    (entries : List (κ × α)) : KeyMap κ α :=
  entries.foldl (fun m e => m.insert e.1 e.2) empty

/- The keys for which `f` has a value, with that value. -/
def collect
    (f : κ → Option α)
    (keys : List κ) : KeyMap κ α :=
  keys.foldl
    (fun m k =>
      match f k with
      | some v => m.insert k v
      | none => m)
    empty

/- The entries for which `f` has a value, with that value. -/
def filterMap
    (f : κ → α → Option β)
    (m : KeyMap κ α) : KeyMap κ β :=
  collect (fun k => (m.get? k).bind (f k)) m.keys

/- Each entry of `b` combined into `m` under its key. -/
def updateAll
    (f : Option α → β → α)
    (m : KeyMap κ α)
    (b : KeyMap κ β) : KeyMap κ α :=
  b.entries.foldl
    (fun acc e => acc.insert e.1 (f (acc.get? e.1) e.2)) m

/- Maps that look up the same are the same. -/
theorem ext_get?
    {m n : KeyMap κ α}
    (hGet : ∀ k, m.get? k = n.get? k) :
    m = n := by
  rcases m with ⟨xs, hXs⟩
  rcases n with ⟨ys, hYs⟩
  have hEntries : xs = ys := eq_of_find_eq hXs hYs hGet
  subst hEntries
  rfl

@[simp] theorem get?_empty
    (k : κ) :
    (empty : KeyMap κ α).get? k = none := rfl

@[simp] theorem get?_insert
    (m : KeyMap κ α)
    (k k' : κ)
    (v : α) :
    (m.insert k v).get? k' =
      if k' = k then some v else m.get? k' :=
  find_put m.sorted k k' v

@[simp] theorem get?_erase
    (m : KeyMap κ α)
    (k k' : κ) :
    (m.erase k).get? k' =
      if k' = k then none else m.get? k' :=
  find_filter k k'

@[simp] theorem get?_assign
    (m : KeyMap κ α)
    (k k' : κ)
    (v : Option α) :
    (m.assign k v).get? k' =
      if k' = k then v else m.get? k' := by
  cases v with
  | none => simp [assign]
  | some v => simp [assign]

theorem find_isSome
    {k : κ}
    {entries : List (κ × α)} :
    (find k entries).isSome = true ↔
      k ∈ entries.map Prod.fst := by
  induction entries with
  | nil => simp [find]
  | cons head rest ih =>
      rcases head with ⟨k', v⟩
      by_cases hKey : k = k'
      · simp [find, hKey]
      · simp only [find, hKey, if_false, ih, List.map_cons,
          List.mem_cons, false_or]

theorem mem_keys
    {m : KeyMap κ α}
    {k : κ} :
    k ∈ m.keys ↔ (m.get? k).isSome = true :=
  find_isSome.symm

/- Maps that have the same keys list them alike. -/
theorem keys_congr
    {m : KeyMap κ α}
    {n : KeyMap κ β}
    (hSome :
      ∀ k, (m.get? k).isSome = (n.get? k).isSome) :
    m.keys = n.keys := by
  apply List.Pairwise.eq_of_mem_iff m.sorted n.sorted
  intro k
  change k ∈ m.keys ↔ k ∈ n.keys
  rw [mem_keys, mem_keys, hSome]

theorem isEmpty_iff
    {m : KeyMap κ α} :
    m.isEmpty = true ↔ ∀ k, m.get? k = none := by
  rcases m with ⟨entries, hSorted⟩
  cases entries with
  | nil => simp [isEmpty, get?, find]
  | cons head rest =>
      simp only [isEmpty, List.isEmpty_cons, Bool.false_eq_true,
        false_iff, not_forall]
      refine ⟨head.1, ?_⟩
      simp [get?, find]

theorem eq_empty_of_isEmpty
    {m : KeyMap κ α}
    (hEmpty : m.isEmpty = true) :
    m = empty := by
  apply ext_get?
  intro k
  rw [isEmpty_iff.mp hEmpty k, get?_empty]

/- What a loop over keys adds to the map it starts from. -/
theorem get?_foldl_collect
    (f : κ → Option α)
    (keys : List κ)
    (m : KeyMap κ α)
    (k : κ) :
    (keys.foldl
        (fun m k =>
          match f k with
          | some v => m.insert k v
          | none => m)
        m).get? k =
      if k ∈ keys ∧ (f k).isSome = true then f k
      else m.get? k := by
  induction keys generalizing m with
  | nil => simp
  | cons key rest ih =>
      rw [List.foldl_cons, ih]
      by_cases hRest : k ∈ rest ∧ (f k).isSome = true
      · rw [if_pos hRest,
          if_pos ⟨List.mem_cons_of_mem _ hRest.1, hRest.2⟩]
      · rw [if_neg hRest]
        by_cases hKey : k = key
        · subst hKey
          cases hValue : f k with
          | none => simp
          | some v => simp
        · have hCons :
              ¬(k ∈ key :: rest ∧ (f k).isSome = true) := by
            rintro ⟨hMem, hSome⟩
            rcases List.mem_cons.mp hMem with hHead | hTail
            · exact hKey hHead
            · exact hRest ⟨hTail, hSome⟩
          rw [if_neg hCons]
          cases hValue : f key with
          | none => rfl
          | some v => simp [hKey]

@[simp] theorem get?_collect
    (f : κ → Option α)
    (keys : List κ)
    (k : κ) :
    (collect f keys).get? k =
      if k ∈ keys then f k else none := by
  rw [collect, get?_foldl_collect]
  cases hValue : f k with
  | none => simp
  | some v => simp

@[simp] theorem get?_filterMap
    (f : κ → α → Option β)
    (m : KeyMap κ α)
    (k : κ) :
    (m.filterMap f).get? k = (m.get? k).bind (f k) := by
  rw [filterMap, get?_collect]
  split
  · rfl
  · rename_i hNotMem
    rw [mem_keys, Bool.not_eq_true, Option.isSome_eq_false_iff,
      Option.isNone_iff_eq_none] at hNotMem
    rw [hNotMem]
    rfl

/- A loop over distinct keys updates each from its start. -/
theorem get?_foldl_updateAll
    (f : Option α → β → α)
    {entries : List (κ × β)}
    (hSorted : Increasing entries)
    (m : KeyMap κ α)
    (k : κ) :
    (entries.foldl
        (fun acc e => acc.insert e.1 (f (acc.get? e.1) e.2))
        m).get? k =
      match find k entries with
      | some v => some (f (m.get? k) v)
      | none => m.get? k := by
  induction entries generalizing m with
  | nil => rfl
  | cons head rest ih =>
      rcases head with ⟨key, value⟩
      rcases increasing_cons.mp hSorted with ⟨hHead, hRest⟩
      rw [List.foldl_cons, ih hRest]
      by_cases hKey : k = key
      · subst hKey
        simp [find, find_eq_none_of_lt hHead]
      · simp [find, hKey]

theorem get?_updateAll
    (f : Option α → β → α)
    (m : KeyMap κ α)
    (b : KeyMap κ β)
    (k : κ) :
    (m.updateAll f b).get? k =
      match b.get? k with
      | some v => some (f (m.get? k) v)
      | none => m.get? k :=
  get?_foldl_updateAll f b.sorted m k

/- A map is what its own entries make. -/
theorem ofList_entries
    (m : KeyMap κ α) :
    ofList m.entries = m := by
  apply ext_get?
  intro k
  have hFold := get?_updateAll (fun _ v => v) empty m k
  unfold updateAll at hFold
  unfold ofList
  rw [hFold, get?_empty]
  cases m.get? k with
  | none => rfl
  | some v => rfl

/- The entries are the keys that have a value. -/
theorem mem_entries
    {m : KeyMap κ α}
    {k : κ}
    {v : α} :
    (k, v) ∈ m.entries ↔ m.get? k = some v := by
  rcases m with ⟨entries, hSorted⟩
  unfold get?
  induction entries with
  | nil => simp [find]
  | cons head rest ih =>
      rcases head with ⟨key, value⟩
      rcases increasing_cons.mp hSorted with ⟨hHead, hRest⟩
      by_cases hKey : k = key
      · subst hKey
        have hOut : (k, v) ∉ rest := by
          intro hMem
          exact lt_irrefl k (hHead (k, v) hMem)
        simp [find, hOut, eq_comm]
      · have hTail := ih hRest
        simp only at hTail
        simp [find, hKey, hTail]

/- Every entry of the map has the property. -/
def All
    (P : κ → α → Prop)
    (m : KeyMap κ α) : Prop :=
  ∀ k v, m.get? k = some v → P k v

theorem All.imp
    {P Q : κ → α → Prop}
    {m : KeyMap κ α}
    (hAll : m.All P)
    (hImp : ∀ k v, P k v → Q k v) :
    m.All Q := by
  intro k v hGet
  exact hImp k v (hAll k v hGet)

theorem All.insert
    {P : κ → α → Prop}
    {m : KeyMap κ α}
    {k : κ}
    {v : α}
    (hAll : m.All P)
    (hEntry : P k v) :
    (m.insert k v).All P := by
  intro k' v' hGet
  rw [get?_insert] at hGet
  split at hGet
  · rename_i hKey
    simp only [Option.some.injEq] at hGet
    rw [hKey, ← hGet]
    exact hEntry
  · exact hAll k' v' hGet

theorem All.erase
    {P : κ → α → Prop}
    {m : KeyMap κ α}
    (hAll : m.All P)
    (k : κ) :
    (m.erase k).All P := by
  intro k' v' hGet
  rw [get?_erase] at hGet
  split at hGet
  · cases hGet
  · exact hAll k' v' hGet

theorem All.foldl_erase
    {P : κ → α → Prop}
    {m : KeyMap κ α}
    (hAll : m.All P)
    (keys : List κ) :
    (keys.foldl KeyMap.erase m).All P := by
  induction keys generalizing m with
  | nil => exact hAll
  | cons k keys ih => exact ih (hAll.erase k)

end KeyMap
