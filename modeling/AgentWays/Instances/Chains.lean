import AgentWays.Instances.Registry
import AgentWays.Lib.Pointers

/-
  The chains of aliases of a registry, and what each edit of
  the rows does to them.

  A row taken out, and what is spliced for it, leaves the
  rest of the rows with the name, the slot and the chain end
  they had.

  Key definitions include:
    * `Instances.next`
    * `Instances.nameOf`
    * `Instances.Sound`
    * `Instances.Shrinks`

  Main declarations:
    * `Instances.chainEnd_eq_some_iff`
    * `Instances.Sound.shrinks`
    * `Instances.shrinks_detach`
    * `Instances.Sound.insert_slot`
-/

------------------------------------------------------------
-- Views of the Rows
------------------------------------------------------------

namespace Instances

open Pointers

variable {rows rows' : Rows} {a s x : String} {n : String}

/- The id an alias points at. -/
def next
    (rows : Rows)
    (id : String) : Option String :=
  (rows.get? id).bind InstanceEntry.aliasOf

/- The instance a row shows. -/
def nameOf
    (rows : Rows)
    (id : String) : Option String :=
  (rows.get? id).map InstanceEntry.instanceName

theorem held_eq_some_iff :
    held rows a = some n ↔
      nameOf rows a = some n ∧ next rows a = none := by
  unfold held nameOf next InstanceEntry.isSlot
  cases rows.get? a with
  | none => simp
  | some e =>
      cases hAlias : e.aliasOf with
      | none => simp [Option.filter_some, hAlias]
      | some t => simp [Option.filter_some, hAlias]

/- Views of one row agree when its row does. -/
theorem views_congr
    (hGet : rows'.get? a = rows.get? a) :
    next rows' a = next rows a ∧
      nameOf rows' a = nameOf rows a ∧
        held rows' a = held rows a := by
  unfold next nameOf held
  rw [hGet]
  exact ⟨rfl, rfl, rfl⟩

theorem nameOf_of_get?_none
    (hGet : rows.get? a = none) :
    nameOf rows a = none := by
  unfold nameOf
  rw [hGet]
  rfl

theorem next_of_get?_none
    (hGet : rows.get? a = none) :
    next rows a = none := by
  unfold next
  rw [hGet]
  rfl

theorem get?_isSome_of_next
    (hNext : next rows a ≠ none) :
    (rows.get? a).isSome = true := by
  cases hGet : rows.get? a with
  | none => exact absurd (next_of_get?_none hGet) hNext
  | some e => rfl

theorem get?_isSome_of_held
    (hHeld : held rows a = some n) :
    (rows.get? a).isSome = true := by
  cases hGet : rows.get? a with
  | none =>
      have hName := (held_eq_some_iff.mp hHeld).1
      rw [nameOf_of_get?_none hGet] at hName
      cases hName
  | some e => rfl

theorem chainFrom_eq_follow
    (rows : Rows)
    (fuel : Nat)
    (id : String) :
    chainFrom rows fuel id = follow (next rows) fuel id := by
  induction fuel generalizing id with
  | zero => rfl
  | succ fuel ih =>
      have hNext :
          next rows id =
            (rows.get? id).bind InstanceEntry.aliasOf :=
        rfl
      rw [chainFrom, follow, hNext]
      cases (rows.get? id).bind InstanceEntry.aliasOf with
      | none => rfl
      | some b => exact ih b

/-
  The chain end looked up is the end of the chain: a chain
  passes each row once, so the bound is never reached.
-/
theorem chainEnd_eq_some_iff :
    chainEnd rows a = some s ↔
      next rows a ≠ none ∧ Ends (next rows) a s := by
  have hKeys : ∀ c, next rows c ≠ none → c ∈ rows.keys := by
    intro c hNext
    exact KeyMap.mem_keys.mpr (get?_isSome_of_next hNext)
  change
    ((next rows a).bind (chainFrom rows rows.keys.length)) =
      some s ↔ _
  cases hNext : next rows a with
  | none => simp
  | some b =>
      rw [Option.bind_some, chainFrom_eq_follow]
      refine ⟨?_, ?_⟩
      · intro hFollow
        exact ⟨by simp, Ends.go hNext (ends_of_follow hFollow)⟩
      · rintro ⟨-, hEnd⟩
        have hWhole :
            follow (next rows) (rows.keys.length + 1) a =
              some s :=
          follow_of_ends hKeys hEnd (Nat.lt_succ_self _)
        rw [follow, hNext] at hWhole
        exact hWhole

end Instances

------------------------------------------------------------
-- Sound Rows
------------------------------------------------------------

namespace Instances

open Pointers

variable {rows rows' : Rows} {a s x : String} {n : String}

/-
  No two slots share a name, an alias shows the name of the
  slot its chain ends at and of no other, and every chain
  ends.
-/
structure Sound (rows : Rows) : Prop where
  ends : ∀ a, ∃ s, Ends (next rows) a s
  distinct :
    ∀ a b n, held rows a = some n → held rows b = some n →
      a = b
  follows :
    ∀ a s n, next rows a ≠ none → Ends (next rows) a s →
      held rows s = some n → nameOf rows a = some n
  apart :
    ∀ a s n, next rows a ≠ none → nameOf rows a = some n →
      held rows s = some n → Ends (next rows) a s

theorem sound_empty :
    Sound KeyMap.empty := by
  have hNext : ∀ a, next KeyMap.empty a = none :=
    fun a => next_of_get?_none (KeyMap.get?_empty a)
  refine ⟨?_, ?_, ?_, ?_⟩
  · intro a
    exact ⟨a, Ends.stop (hNext a)⟩
  · intro a b n hA
    cases get?_isSome_of_held hA
  · intro a s n hAlias
    exact absurd (hNext a) hAlias
  · intro a s n hAlias
    exact absurd (hNext a) hAlias

/-
  Each row left shows what it showed: its name, its slot,
  whether it is an alias, and where its chain ends.
-/
structure Shrinks (rows rows' : Rows) : Prop where
  row :
    ∀ a, (rows'.get? a).isSome = true →
      (rows.get? a).isSome = true
  name :
    ∀ a, (rows'.get? a).isSome = true →
      nameOf rows' a = nameOf rows a
  slot :
    ∀ a, (rows'.get? a).isSome = true →
      held rows' a = held rows a
  pointed :
    ∀ a, (rows'.get? a).isSome = true →
      (next rows' a = none ↔ next rows a = none)
  ends :
    ∀ a s, (rows'.get? a).isSome = true →
      (Ends (next rows') a s ↔ Ends (next rows) a s)

theorem Shrinks.refl
    (rows : Rows) :
    Shrinks rows rows :=
  { row := fun _ h => h
    name := fun _ _ => rfl
    slot := fun _ _ => rfl
    pointed := fun _ _ => Iff.rfl
    ends := fun _ _ _ => Iff.rfl }

theorem Shrinks.trans
    {rows'' : Rows}
    (hFirst : Shrinks rows rows')
    (hSecond : Shrinks rows' rows'') :
    Shrinks rows rows'' where
  row := fun a h => hFirst.row a (hSecond.row a h)
  name := fun a h =>
    (hSecond.name a h).trans (hFirst.name a (hSecond.row a h))
  slot := fun a h =>
    (hSecond.slot a h).trans (hFirst.slot a (hSecond.row a h))
  pointed := fun a h =>
    (hSecond.pointed a h).trans
      (hFirst.pointed a (hSecond.row a h))
  ends := fun a s h =>
    (hSecond.ends a s h).trans
      (hFirst.ends a s (hSecond.row a h))

/- Sound rows stay sound as long as the rest is kept. -/
theorem Sound.shrinks
    (hSound : Sound rows)
    (hShrinks : Shrinks rows rows') :
    Sound rows' := by
  have hOld :
      ∀ a n, held rows' a = some n → held rows a = some n := by
    intro a n hHeld
    rw [← hShrinks.slot a (get?_isSome_of_held hHeld)]
    exact hHeld
  refine ⟨?_, ?_, ?_, ?_⟩
  · intro a
    by_cases hRow : (rows'.get? a).isSome = true
    · rcases hSound.ends a with ⟨s, hEnd⟩
      exact ⟨s, (hShrinks.ends a s hRow).mpr hEnd⟩
    · refine ⟨a, Ends.stop (next_of_get?_none ?_)⟩
      simpa using hRow
  · intro a b n hA hB
    exact hSound.distinct a b n (hOld a n hA) (hOld b n hB)
  · intro a s n hAlias hEnd hHeld
    have hRow := get?_isSome_of_next hAlias
    rw [hShrinks.name a hRow]
    exact hSound.follows a s n
      (fun hNone => hAlias ((hShrinks.pointed a hRow).mpr hNone))
      ((hShrinks.ends a s hRow).mp hEnd) (hOld s n hHeld)
  · intro a s n hAlias hName hHeld
    have hRow := get?_isSome_of_next hAlias
    rw [hShrinks.name a hRow] at hName
    exact (hShrinks.ends a s hRow).mpr
      (hSound.apart a s n
        (fun hNone =>
          hAlias ((hShrinks.pointed a hRow).mpr hNone))
        hName (hOld s n hHeld))

end Instances

------------------------------------------------------------
-- Rows Taken Out
------------------------------------------------------------

namespace Instances

open Pointers

variable {rows : Rows} {a s x : String} {n : String}

/- A row of the rest, with what it pointed at settled. -/
theorem get?_detach
    (rows : Rows)
    (x a : String) :
    (detach rows x).get? a =
      if a = x then none
      else
        (rows.get? a).map
          (fun e =>
            match next rows x with
            | some t =>
                if e.aliasOf = some x then
                  { e with aliasOf := some t }
                else e
            | none => e) := by
  unfold detach next
  cases hRow : rows.get? x with
  | none =>
      by_cases hHere : a = x
      · rw [if_pos hHere, hHere, hRow]
      · simp [hHere]
  | some e =>
      cases hAlias : e.aliasOf with
      | none => simp [hAlias]
      | some t =>
          simp only [hAlias, Option.bind_some]
          rw [get?_mapRows, KeyMap.get?_erase]
          split
          · rfl
          · rfl

theorem next_detach_of_alias
    {t : String}
    (hAlias : next rows x = some t) :
    next (detach rows x) = splice (next rows) x := by
  funext a
  unfold splice
  rw [hAlias]
  unfold next at hAlias ⊢
  rw [get?_detach]
  unfold next
  rw [hAlias]
  by_cases hHere : a = x
  · rw [if_pos hHere, if_pos hHere]
    rfl
  · rw [if_neg hHere, if_neg hHere]
    cases rows.get? a with
    | none => rfl
    | some e =>
        dsimp only [Option.map_some, Option.bind_some]
        split <;> rfl

theorem next_detach_of_not_alias
    (hNone : next rows x = none) :
    next (detach rows x) = next rows := by
  funext a
  by_cases hHere : a = x
  · rw [hHere, hNone]
    apply next_of_get?_none
    rw [get?_detach, if_pos rfl]
  · unfold next
    rw [get?_detach, if_neg hHere, hNone]
    cases rows.get? a <;> rfl

theorem nameOf_detach
    (rows : Rows)
    (hNe : a ≠ x) :
    nameOf (detach rows x) a = nameOf rows a := by
  unfold nameOf
  rw [get?_detach, if_neg hNe, Option.map_map]
  congr 1
  funext e
  rw [Function.comp_apply]
  split
  · split <;> rfl
  · rfl

theorem next_detach_eq_none_iff
    (rows : Rows)
    (hNe : a ≠ x) :
    next (detach rows x) a = none ↔ next rows a = none := by
  cases hTarget : next rows x with
  | none => rw [next_detach_of_not_alias hTarget]
  | some t =>
      rw [next_detach_of_alias hTarget]
      unfold splice
      rw [if_neg hNe, hTarget]
      split
      · rename_i hPoints
        rw [hPoints]
        simp
      · rfl

theorem held_detach
    (rows : Rows)
    (hNe : a ≠ x) :
    held (detach rows x) a = held rows a := by
  apply Option.ext
  intro n
  rw [held_eq_some_iff, held_eq_some_iff,
    nameOf_detach rows hNe, next_detach_eq_none_iff rows hNe]

/- What a detach leaves is as it was. -/
theorem shrinks_detach
    (hEnds : ∀ a, ∃ s, Ends (next rows) a s)
    (x : String) :
    Shrinks rows (detach rows x) := by
  have hOther :
      ∀ a, ((detach rows x).get? a).isSome = true → a ≠ x := by
    rintro a hRow rfl
    rw [get?_detach, if_pos rfl] at hRow
    cases hRow
  refine ⟨?_, ?_, ?_, ?_, ?_⟩
  · intro a hRow
    have hNe := hOther a hRow
    rw [get?_detach, if_neg hNe, Option.isSome_map] at hRow
    exact hRow
  · intro a hRow
    exact nameOf_detach rows (hOther a hRow)
  · intro a hRow
    exact held_detach rows (hOther a hRow)
  · intro a hRow
    exact next_detach_eq_none_iff rows (hOther a hRow)
  · intro a s hRow
    cases hTarget : next rows x with
    | none => rw [next_detach_of_not_alias hTarget]
    | some t =>
        rw [next_detach_of_alias hTarget]
        refine ⟨?_, ends_splice hTarget (hOther a hRow)⟩
        intro hEnd
        rcases hEnds a with ⟨s', hEnd'⟩
        have hSame :=
          hEnd.unique (ends_splice hTarget (hOther a hRow) hEnd')
        rw [hSame]
        exact hEnd'

theorem Sound.detach
    (hSound : Sound rows)
    (x : String) :
    Sound (detach rows x) :=
  hSound.shrinks (shrinks_detach hSound.ends x)

theorem get?_detach_self
    (rows : Rows)
    (x : String) :
    (Instances.detach rows x).get? x = none := by
  rw [get?_detach, if_pos rfl]

/- So do rows taken out one after another. -/
theorem shrinks_foldl_detach
    (hSound : Sound rows)
    (ids : List String) :
    Shrinks rows (ids.foldl Instances.detach rows) := by
  induction ids generalizing rows with
  | nil => exact Shrinks.refl rows
  | cons id ids ih =>
      exact (shrinks_detach hSound.ends id).trans
        (ih (hSound.detach id))

theorem get?_foldl_detach_of_none
    (ids : List String)
    (hNone : rows.get? a = none) :
    (ids.foldl Instances.detach rows).get? a = none := by
  induction ids generalizing rows with
  | nil => exact hNone
  | cons id ids ih =>
      apply ih
      rw [get?_detach, hNone]
      split <;> rfl

theorem get?_foldl_detach_of_mem
    {ids : List String}
    (hMem : a ∈ ids) :
    (ids.foldl Instances.detach rows).get? a = none := by
  induction ids generalizing rows with
  | nil => cases hMem
  | cons id ids ih =>
      rcases List.mem_cons.mp hMem with rfl | hTail
      · exact get?_foldl_detach_of_none ids
          (get?_detach_self rows a)
      · exact ih hTail

end Instances

------------------------------------------------------------
-- Rows Pruned and Slots Added
------------------------------------------------------------

namespace Instances

open Pointers

variable {rows : Rows} {a s x : String} {n : String}

theorem get?_prune
    (sid : String)
    (cutoff : Nat)
    (rows : Rows)
    (a : String) :
    (prune sid cutoff rows).get? a =
      (rows.get? a).filter
        (fun e => a = sid ∨ cutoff ≤ e.lastSeen) := by
  unfold prune
  rw [KeyMap.get?_filterMap]
  cases rows.get? a with
  | none => rfl
  | some e =>
      rw [Option.bind_some, Option.filter_some]
      by_cases hKept : a = sid ∨ cutoff ≤ e.lastSeen
      · simp [hKept]
      · simp [hKept]

/- A row the prune keeps is the row there was. -/
theorem get?_of_prune
    {sid : String}
    {cutoff : Nat}
    (hRow : ((prune sid cutoff rows).get? a).isSome = true) :
    (prune sid cutoff rows).get? a = rows.get? a := by
  rw [get?_prune] at hRow ⊢
  cases hGet : rows.get? a with
  | none => rfl
  | some e =>
      rw [hGet, Option.filter_some] at hRow
      rw [Option.filter_some]
      split at hRow
      · rename_i hKept
        rw [if_pos hKept]
      · cases hRow

theorem next_prune
    (sid : String)
    (cutoff : Nat)
    (rows : Rows) :
    next (prune sid cutoff rows) =
      restrict (next rows)
        (fun a => ((prune sid cutoff rows).get? a).isSome) := by
  funext a
  unfold restrict
  split
  · rename_i hRow
    exact (views_congr (get?_of_prune hRow)).1
  · rename_i hRow
    apply next_of_get?_none
    simpa using hRow

/- Fewer rows are sound if no chain to a slot is cut. -/
theorem Sound.prune
    {sid : String}
    {cutoff : Nat}
    (hSound : Sound rows)
    (hWhole :
      ∀ a s n,
        ((prune sid cutoff rows).get? a).isSome = true →
          held (prune sid cutoff rows) s = some n →
            chainEnd rows a = some s →
              chainEnd (prune sid cutoff rows) a = some s) :
    Sound (prune sid cutoff rows) := by
  have hEnds :
      ∀ a, ∃ s, Ends (next (Instances.prune sid cutoff rows)) a s := by
    intro a
    rcases hSound.ends a with ⟨s, hEnd⟩
    rw [next_prune]
    exact exists_ends_restrict _ hEnd
  have hOld :
      ∀ a n, held (Instances.prune sid cutoff rows) a = some n →
        held rows a = some n := by
    intro a n hHeld
    have hGet := get?_of_prune (get?_isSome_of_held hHeld)
    rw [← (views_congr hGet).2.2]
    exact hHeld
  refine ⟨hEnds, ?_, ?_, ?_⟩
  · intro a b n hA hB
    exact hSound.distinct a b n (hOld a n hA) (hOld b n hB)
  · intro a s n hAlias hEnd hHeld
    have hViews :=
      views_congr (get?_of_prune (get?_isSome_of_next hAlias))
    rw [hViews.1] at hAlias
    rw [hViews.2.1]
    have hSlot := (held_eq_some_iff.mp (hOld s n hHeld)).2
    rw [next_prune] at hEnd
    exact hSound.follows a s n hAlias
      (ends_of_restrict hEnd hSlot) (hOld s n hHeld)
  · intro a s n hAlias hName hHeld
    have hRow := get?_isSome_of_next hAlias
    have hViews := views_congr (get?_of_prune hRow)
    rw [hViews.2.1] at hName
    have hBefore : next rows a ≠ none := by
      rw [← hViews.1]
      exact hAlias
    have hEnd := hSound.apart a s n hBefore hName (hOld s n hHeld)
    have hChain : chainEnd rows a = some s :=
      chainEnd_eq_some_iff.mpr
        ⟨hBefore, hEnd⟩
    exact (chainEnd_eq_some_iff.mp
      (hWhole a s n hRow hHeld hChain)).2

/- A row put in or replaced by one that points alike. -/
theorem next_insert
    {e : InstanceEntry}
    (hAlias : e.aliasOf = next rows x) :
    next (rows.insert x e) = next rows := by
  funext a
  by_cases hHere : a = x
  · rw [hHere]
    unfold next at hAlias ⊢
    rw [KeyMap.get?_insert, if_pos rfl, Option.bind_some, hAlias]
  · unfold next
    rw [KeyMap.get?_insert, if_neg hHere]

/-
  A slot with a new name, where exactly the aliases that
  lead to it show that name.
-/
theorem Sound.insert_slot
    {slot : InstanceEntry}
    (hSound : Sound rows)
    (hSlot : slot.aliasOf = none)
    (hLast : next rows x = none)
    (hFresh :
      ∀ s, s ≠ x → held rows s ≠ some slot.instanceName)
    (hAliases :
      ∀ a, next rows a ≠ none →
        (Ends (next rows) a x ↔
          nameOf rows a = some slot.instanceName)) :
    Sound (rows.insert x slot) := by
  have hNext : next (rows.insert x slot) = next rows := by
    apply next_insert
    rw [hSlot, hLast]
  have hName :
      ∀ a, a ≠ x →
        nameOf (rows.insert x slot) a = nameOf rows a ∧
          held (rows.insert x slot) a = held rows a := by
    intro a hNe
    apply (views_congr _).2
    rw [KeyMap.get?_insert, if_neg hNe]
  have hHere :
      held (rows.insert x slot) x = some slot.instanceName := by
    rw [held_eq_some_iff, hNext, hLast]
    refine ⟨?_, rfl⟩
    unfold nameOf
    rw [KeyMap.get?_insert, if_pos rfl]
    rfl
  have hOther : ∀ a, next rows a ≠ none → a ≠ x := by
    rintro a hAlias rfl
    exact hAlias hLast
  refine ⟨?_, ?_, ?_, ?_⟩
  · rw [hNext]
    exact hSound.ends
  · intro a b n hA hB
    by_cases hAx : a = x
    · by_cases hBx : b = x
      · rw [hAx, hBx]
      · rw [hAx, hHere, Option.some.injEq] at hA
        rw [(hName b hBx).2, ← hA] at hB
        exact absurd hB (hFresh b hBx)
    · by_cases hBx : b = x
      · rw [hBx, hHere, Option.some.injEq] at hB
        rw [(hName a hAx).2, ← hB] at hA
        exact absurd hA (hFresh a hAx)
      · rw [(hName a hAx).2] at hA
        rw [(hName b hBx).2] at hB
        exact hSound.distinct a b n hA hB
  · intro a s n hAlias hEnd hHeld
    rw [hNext] at hAlias hEnd
    rw [(hName a (hOther a hAlias)).1]
    by_cases hSx : s = x
    · rw [hSx] at hEnd hHeld
      rw [hHere] at hHeld
      rw [← hHeld]
      exact (hAliases a hAlias).mp hEnd
    · rw [(hName s hSx).2] at hHeld
      exact hSound.follows a s n hAlias hEnd hHeld
  · intro a s n hAlias hShows hHeld
    rw [hNext] at hAlias ⊢
    rw [(hName a (hOther a hAlias)).1] at hShows
    by_cases hSx : s = x
    · rw [hSx, hHere] at hHeld
      rw [hSx]
      apply (hAliases a hAlias).mpr
      rw [hHeld]
      exact hShows
    · rw [(hName s hSx).2] at hHeld
      exact hSound.apart a s n hAlias hShows hHeld

end Instances
