import AgentWays.Instances.Chains
import AgentWays.Lib.TextSpec

/-
  What each edit of the registry's rows leaves sound.

  A registration may break a chain in two ways: its prune
  may drop an alias in the middle of one, and the slot it
  hands out may stand where the chains of older aliases end.

  Key definitions include:
    * `Instances.KeepsChains`
    * `Instances.TakesOver`

  Main declarations:
    * `Instances.nextFreeInstance_not_mem`
    * `Instances.sound_registerWithAge`
    * `Instances.sound_rename`
    * `Instances.sound_refresh`
-/

------------------------------------------------------------
-- Free Names
------------------------------------------------------------

namespace Instances

variable {rows : Rows} {n : String}

/- A number found taken has so many taken ones after it. -/
theorem range_subset_of_nextFreeNumber_mem
    {taken : List String}
    {fuel k : Nat}
    (hTaken : nextFreeNumber taken fuel k ∈ taken) :
    (List.range' k (fuel + 1)).map (fun i => toString i) ⊆
      taken := by
  induction fuel generalizing k with
  | zero =>
      intro name hMem
      have hName : name = toString k := by
        simpa using hMem
      rw [hName]
      exact hTaken
  | succ fuel ih =>
      rw [nextFreeNumber] at hTaken
      split at hTaken
      · rename_i hHead
        rw [List.range'_succ, List.map_cons]
        exact List.cons_subset.mpr ⟨hHead, ih hTaken⟩
      · rename_i hFree
        exact absurd hTaken hFree

theorem nextFreeNumber_not_mem
    (taken : List String)
    (k : Nat) :
    nextFreeNumber taken taken.length k ∉ taken := by
  intro hTaken
  have hSubset := range_subset_of_nextFreeNumber_mem hTaken
  have hNodup :
      ((List.range' k (taken.length + 1)).map
        (fun i => toString i)).Nodup := by
    apply List.Nodup.map
    · intro i j hSame
      have hValue := congrArg
        (fun s => RustText.digitsValue s.toList) hSame
      dsimp only at hValue
      rw [RustText.digitsValue_toString,
        RustText.digitsValue_toString] at hValue
      exact hValue
    · exact List.nodup_range'
  have hLe :=
    (List.subperm_of_subset hNodup hSubset).length_le
  rw [List.length_map, List.length_range'] at hLe
  omega

/- The name handed out is one no slot holds. -/
theorem nextFreeInstance_not_mem
    (taken : List String) :
    nextFreeInstance taken ∉ taken := by
  unfold nextFreeInstance
  split
  · rename_i letter hFind
    simpa using List.find?_some hFind
  · exact nextFreeNumber_not_mem taken _

theorem mem_takenNames :
    n ∈ takenNames rows ↔ ∃ s, held rows s = some n := by
  unfold takenNames held
  constructor
  · intro hMem
    rcases List.mem_map.mp hMem with ⟨⟨s, e⟩, hEntry, rfl⟩
    rw [List.mem_filter, KeyMap.mem_entries] at hEntry
    refine ⟨s, ?_⟩
    rw [hEntry.1, Option.filter_some, if_pos hEntry.2]
    rfl
  · rintro ⟨s, hHeld⟩
    cases hGet : rows.get? s with
    | none =>
        rw [hGet] at hHeld
        cases hHeld
    | some e =>
        rw [hGet, Option.filter_some] at hHeld
        split at hHeld
        · rename_i hSlot
          rw [Option.map_some, Option.some.injEq] at hHeld
          refine List.mem_map.mpr ⟨(s, e), ?_, hHeld⟩
          rw [List.mem_filter, KeyMap.mem_entries]
          exact ⟨hGet, hSlot⟩
        · cases hHeld

/- No slot holds the next free name. -/
theorem held_ne_nextFree
    (rows : Rows)
    (s : String) :
    held rows s ≠ some (nextFreeInstance (takenNames rows)) := by
  intro hHeld
  exact nextFreeInstance_not_mem (takenNames rows)
    (mem_takenNames.mpr ⟨s, hHeld⟩)

end Instances

------------------------------------------------------------
-- Registration
------------------------------------------------------------

namespace Instances

open Pointers

variable {rows : Rows} {a s sid : String} {n : String}

/- No chain from a row kept to a slot kept is cut. -/
def KeepsChains
    (rows kept : Rows) : Prop :=
  ∀ a s n, (kept.get? a).isSome = true →
    held kept s = some n → chainEnd rows a = some s →
      chainEnd kept a = some s

/-
  The aliases that lead to `sid`, which holds no slot, show
  the name it is about to be given.
-/
def TakesOver
    (rows : Rows)
    (sid : String) : Prop :=
  ∀ a, chainEnd rows a = some sid →
    nameOf rows a = some (nextFreeInstance (takenNames rows))

theorem orphaned_eq_true_iff :
    orphaned rows a = true ↔
      next rows a ≠ none ∧
        ∀ last, chainEnd rows a = some last →
          rows.get? last = none := by
  unfold orphaned next InstanceEntry.isSlot
  cases hGet : rows.get? a with
  | none => simp
  | some e =>
      cases hAlias : e.aliasOf with
      | none => simp [hAlias]
      | some t =>
          cases hEnd : chainEnd rows a with
          | none => simp [hAlias]
          | some last => simp [hAlias]

theorem mem_orphansOf :
    a ∈ orphansOf rows n ↔
      nameOf rows a = some n ∧ orphaned rows a = true := by
  unfold orphansOf nameOf
  constructor
  · intro hMem
    rcases List.mem_map.mp hMem with ⟨⟨a', e⟩, hEntry, rfl⟩
    rw [List.mem_filter, KeyMap.mem_entries,
      Bool.and_eq_true, beq_iff_eq] at hEntry
    rw [hEntry.1, Option.map_some, hEntry.2.1]
    exact ⟨rfl, hEntry.2.2⟩
  · rintro ⟨hName, hOrphan⟩
    rcases Option.map_eq_some_iff.mp hName with
      ⟨e, hGet, hShows⟩
    refine List.mem_map.mpr ⟨(a, e), ?_, rfl⟩
    rw [List.mem_filter, KeyMap.mem_entries,
      Bool.and_eq_true, beq_iff_eq]
    exact ⟨hGet, hShows, hOrphan⟩

/-
  Once the orphans are dropped no alias shows the name of
  the new slot: one that is left leads to a slot, and shows
  the name of that one.
-/
theorem nameOf_ne_of_not_orphan
    (hSound : Sound rows)
    (hFresh : ∀ s, held rows s ≠ some n)
    (hAlias : next rows a ≠ none)
    (hKept : a ∉ orphansOf rows n) :
    nameOf rows a ≠ some n := by
  intro hName
  apply hKept
  rw [mem_orphansOf]
  refine ⟨hName, ?_⟩
  rw [orphaned_eq_true_iff]
  refine ⟨hAlias, ?_⟩
  intro last hEnd
  have hChain := (chainEnd_eq_some_iff.mp hEnd).2
  cases hGet : rows.get? last with
  | none => rfl
  | some e =>
      have hHeld : held rows last = some e.instanceName := by
        rw [held_eq_some_iff]
        refine ⟨?_, hChain.end_eq_none⟩
        unfold nameOf
        rw [hGet]
        rfl
      have hShown := hSound.follows a last _ hAlias hChain hHeld
      rw [hName, Option.some.injEq] at hShown
      rw [← hShown] at hHeld
      exact absurd hHeld (hFresh last)

theorem sound_allocate
    {now : Nat}
    (hSound : Sound rows)
    (hTakes : TakesOver (detach rows sid) sid) :
    Sound (allocate rows sid now).1 := by
  unfold allocate
  dsimp only
  generalize hName :
    nextFreeInstance (takenNames (detach rows sid)) = name
  have hRest : Sound (detach rows sid) := hSound.detach sid
  have hFresh :
      ∀ s, held (detach rows sid) s ≠ some name := by
    intro s
    rw [← hName]
    exact held_ne_nextFree _ s
  have hShrinks :=
    shrinks_foldl_detach hRest
      (orphansOf (detach rows sid) name)
  have hNoRow :
      ((orphansOf (detach rows sid) name).foldl detach
        (detach rows sid)).get? sid = none :=
    get?_foldl_detach_of_none _ (get?_detach_self rows sid)
  have hNone :
      ∀ a,
        next
            ((orphansOf (detach rows sid) name).foldl detach
              (detach rows sid)) a ≠ none →
          nameOf
              ((orphansOf (detach rows sid) name).foldl
                detach (detach rows sid)) a ≠ some name := by
    intro a hAlias
    have hRow := get?_isSome_of_next hAlias
    rw [hShrinks.name a hRow]
    apply nameOf_ne_of_not_orphan hRest hFresh
    · intro hEnd
      exact hAlias ((hShrinks.pointed a hRow).mpr hEnd)
    · intro hMem
      rw [get?_foldl_detach_of_mem hMem] at hRow
      cases hRow
  apply (hRest.shrinks hShrinks).insert_slot rfl
  · exact next_of_get?_none hNoRow
  · intro s _ hHeld
    rw [hShrinks.slot s (get?_isSome_of_held hHeld)] at hHeld
    exact hFresh s hHeld
  · intro a hAlias
    have hRow := get?_isSome_of_next hAlias
    constructor
    · intro hEnd
      have hLeads :
          chainEnd (detach rows sid) a = some sid := by
        rw [chainEnd_eq_some_iff]
        exact ⟨fun hStop =>
            hAlias ((hShrinks.pointed a hRow).mpr hStop),
          (hShrinks.ends a sid hRow).mp hEnd⟩
      have hShows := hTakes a hLeads
      rw [hName] at hShows
      rw [hShrinks.name a hRow]
      exact hShows
    · intro hShows
      exact absurd hShows (hNone a hAlias)

theorem next_refresh
    (rows : Rows)
    (id : String)
    (now : Nat) :
    next (refresh rows id now) = next rows := by
  unfold refresh
  cases hGet : rows.get? id with
  | none => rfl
  | some e =>
      apply next_insert
      unfold next
      rw [hGet]
      rfl

theorem nameOf_refresh
    (rows : Rows)
    (id : String)
    (now : Nat)
    (a : String) :
    nameOf (refresh rows id now) a = nameOf rows a := by
  unfold refresh
  cases hGet : rows.get? id with
  | none => rfl
  | some e =>
      dsimp only
      unfold nameOf
      rw [KeyMap.get?_insert]
      split
      · rename_i hHere
        rw [hHere, hGet]
        rfl
      · rfl

theorem held_refresh
    (rows : Rows)
    (id : String)
    (now : Nat)
    (a : String) :
    held (refresh rows id now) a = held rows a := by
  apply Option.ext
  intro n
  rw [held_eq_some_iff, held_eq_some_iff, nameOf_refresh,
    next_refresh]

/- A later time in a row changes nothing its chains show. -/
theorem sound_refresh
    (hSound : Sound rows)
    (id : String)
    (now : Nat) :
    Sound (refresh rows id now) := by
  refine ⟨?_, ?_, ?_, ?_⟩
  · rw [next_refresh]
    exact hSound.ends
  · intro a b n hA hB
    rw [held_refresh] at hA hB
    exact hSound.distinct a b n hA hB
  · intro a s n hAlias hEnd hSlot
    rw [next_refresh] at hAlias hEnd
    rw [held_refresh] at hSlot
    rw [nameOf_refresh]
    exact hSound.follows a s n hAlias hEnd hSlot
  · intro a s n hAlias hShows hSlot
    rw [nameOf_refresh] at hShows
    rw [held_refresh] at hSlot
    rw [next_refresh] at hAlias ⊢
    exact hSound.apart a s n hAlias hShows hSlot

theorem sound_registerWithAge
    {gcAge now : Nat}
    (hSound : Sound rows)
    (hChains :
      KeepsChains rows (prune sid (now - gcAge) rows))
    (hTakes :
      held (prune sid (now - gcAge) rows) sid = none →
        TakesOver
          (detach (prune sid (now - gcAge) rows) sid) sid) :
    Sound (registerWithAge sid gcAge now rows).1 := by
  have hKept : Sound (prune sid (now - gcAge) rows) :=
    hSound.prune hChains
  unfold registerWithAge
  dsimp only
  cases hHeld : held (prune sid (now - gcAge) rows) sid with
  | some name => exact sound_refresh hKept sid now
  | none => exact sound_allocate hKept (hTakes hHeld)

end Instances

------------------------------------------------------------
-- Renames
------------------------------------------------------------

namespace Instances

open Pointers

variable {rows base taken : Rows} {a s old new name : String}
variable {now : Nat}

/-
  The rows once `new` has its slot, over the rows `base`
  they were made of, where only `old` and `new` may hold the
  slot's name.
-/
structure Taken
    (base taken : Rows)
    (old new name : String) : Prop where
  sound : Sound base
  next : next taken = next base
  oldRow : (taken.get? old).isSome = true
  oldEnd : Instances.next base old = none
  newEnd : Instances.next base new = none
  newSlot : held taken new = some name
  others :
    ∀ a, a ≠ new →
      nameOf taken a = nameOf base a ∧
        held taken a = held base a
  fresh :
    ∀ s, s ≠ old → s ≠ new → held base s ≠ some name
  shown :
    ∀ a, Instances.next base a ≠ none →
      nameOf base a = some name →
        Ends (Instances.next base) a old ∨
          Ends (Instances.next base) a new

theorem taken_takeSlot
    (hSound : Sound rows)
    (hNe : old ≠ new)
    (hHeld : held rows old ≠ none)
    (now : Nat) :
    ∃ base,
      Taken base (takeSlot rows old new now).1 old new
        (takeSlot rows old new now).2 := by
  rcases Option.ne_none_iff_exists'.mp hHeld with ⟨n, hOld⟩
  have hOldView := held_eq_some_iff.mp hOld
  unfold takeSlot
  cases hNew : held rows new with
  | some m =>
      refine ⟨rows, hSound, rfl, get?_isSome_of_held hOld,
        hOldView.2, (held_eq_some_iff.mp hNew).2, hNew,
        fun _ _ => ⟨rfl, rfl⟩, ?_, ?_⟩
      · intro s _ hOther hSame
        exact hOther (hSound.distinct s new m hSame hNew)
      · intro a hAlias hShows
        exact Or.inr (hSound.apart a new m hAlias hShows hNew)
  | none =>
      have hRest : Sound (detach rows new) := hSound.detach new
      have hShrinks := shrinks_detach hSound.ends new
      have hOldRow :
          ((detach rows new).get? old).isSome = true := by
        rw [get?_detach, if_neg hNe, Option.isSome_map]
        exact get?_isSome_of_held hOld
      have hOldSlot : held (detach rows new) old = some n := by
        rw [hShrinks.slot old hOldRow]
        exact hOld
      have hOldEnd := (held_eq_some_iff.mp hOldSlot).2
      have hNewNone :=
        next_of_get?_none (get?_detach_self rows new)
      dsimp only
      cases hGet : (detach rows new).get? old with
      | none =>
          rw [hGet] at hOldRow
          cases hOldRow
      | some slot =>
          have hName : slot.instanceName = n := by
            have hShown := (held_eq_some_iff.mp hOldSlot).1
            unfold nameOf at hShown
            rw [hGet, Option.map_some,
              Option.some.injEq] at hShown
            exact hShown
          have hSlot : slot.aliasOf = none := by
            have hEnd := hOldEnd
            unfold Instances.next at hEnd
            rw [hGet, Option.bind_some] at hEnd
            exact hEnd
          have hNext :
              Instances.next
                  ((detach rows new).insert new
                    { slot with lastSeen := now }) =
                Instances.next (detach rows new) := by
            apply next_insert
            rw [hNewNone]
            exact hSlot
          dsimp only
          refine ⟨detach rows new, hRest, hNext, ?_, hOldEnd,
            hNewNone, ?_, ?_, ?_, ?_⟩
          · rw [KeyMap.get?_insert, if_neg hNe, hGet]
            rfl
          · rw [held_eq_some_iff, hNext, hNewNone]
            refine ⟨?_, rfl⟩
            unfold nameOf
            rw [KeyMap.get?_insert, if_pos rfl]
            rfl
          · intro a hOther
            apply (views_congr _).2
            rw [KeyMap.get?_insert, if_neg hOther]
          · intro s hOther _ hSame
            rw [hName] at hSame
            exact hOther
              (hRest.distinct s old n hSame hOldSlot)
          · intro a hAlias hShows
            rw [hName] at hShows
            exact Or.inl
              (hRest.apart a old n hAlias hShows hOldSlot)

theorem next_aliasTo
    (hRow : (taken.get? old).isSome = true) :
    Instances.next (aliasTo taken old new) =
      Function.update (Instances.next taken) old (some new) := by
  funext a
  unfold aliasTo
  cases hGet : taken.get? old with
  | none =>
      rw [hGet] at hRow
      cases hRow
  | some e =>
      dsimp only
      by_cases hHere : a = old
      · rw [hHere, Function.update_self]
        unfold Instances.next
        rw [KeyMap.get?_insert, if_pos rfl]
        rfl
      · rw [Function.update_of_ne hHere]
        unfold Instances.next
        rw [KeyMap.get?_insert, if_neg hHere]

theorem nameOf_aliasTo
    (a : String) :
    nameOf (aliasTo taken old new) a = nameOf taken a := by
  unfold aliasTo
  cases hGet : taken.get? old with
  | none => rfl
  | some e =>
      dsimp only
      unfold nameOf
      rw [KeyMap.get?_insert]
      split
      · rename_i hHere
        rw [hHere, hGet]
        rfl
      · rfl

theorem held_aliasTo
    (rows : Rows)
    (new : String)
    (hNe : a ≠ old) :
    held (aliasTo rows old new) a = held rows a := by
  unfold aliasTo
  split
  · rfl
  · apply (views_congr _).2.2
    rw [KeyMap.get?_insert, if_neg hNe]

/- The rows of a rename, from those with its slot taken. -/
def relabel
    (rows : Rows)
    (new name : String) : Rows :=
  mapRows
    (fun id e =>
      if chainEnd rows id = some new then
        { e with instanceName := name }
      else e)
    rows

theorem next_relabel
    (rows : Rows)
    (new name : String) :
    Instances.next (relabel rows new name) =
      Instances.next rows := by
  funext a
  unfold Instances.next relabel
  rw [get?_mapRows]
  cases rows.get? a with
  | none => rfl
  | some e =>
      rw [Option.map_some, Option.bind_some, Option.bind_some]
      split <;> rfl

theorem nameOf_relabel
    (rows : Rows)
    (new name a : String) :
    nameOf (relabel rows new name) a =
      if chainEnd rows a = some new then
        (nameOf rows a).map (fun _ => name)
      else nameOf rows a := by
  unfold nameOf relabel
  rw [get?_mapRows]
  cases rows.get? a with
  | none => simp
  | some e =>
      simp only [Option.map_some]
      split <;> rfl

theorem held_relabel
    (rows : Rows)
    (new name a : String) :
    held (relabel rows new name) a = held rows a := by
  apply Option.ext
  intro n
  rw [held_eq_some_iff, held_eq_some_iff, next_relabel,
    nameOf_relabel]
  split
  · rename_i hEnd
    have hAlias := (chainEnd_eq_some_iff.mp hEnd).1
    simp [hAlias]
  · rfl

/- Every chain ends, those of `old` at `new` now. -/
theorem Taken.ends_relabel
    (hTaken : Taken base taken old new name)
    (hNe : old ≠ new)
    (hEnd : Ends (Instances.next base) a s) :
    Ends
      (Instances.next
        (relabel (aliasTo taken old new) new name)) a
      (if s = old then new else s) := by
  rw [next_relabel, next_aliasTo hTaken.oldRow, hTaken.next]
  exact ends_update hTaken.oldEnd hTaken.newEnd (Ne.symm hNe)
    hEnd

theorem Taken.held_relabel
    (hTaken : Taken base taken old new name) :
    held (relabel (aliasTo taken old new) new name) a =
      if a = old then none else held taken a := by
  rw [Instances.held_relabel]
  apply Option.ext
  intro n
  rw [held_eq_some_iff, next_aliasTo hTaken.oldRow,
    nameOf_aliasTo]
  by_cases hHere : a = old
  · rw [if_pos hHere, hHere, Function.update_self]
    simp
  · rw [if_neg hHere, Function.update_of_ne hHere,
      held_eq_some_iff]

/- What an alias shows after the rename, by its chain. -/
theorem Taken.nameOf_relabel
    (hTaken : Taken base taken old new name)
    (hNe : old ≠ new)
    (hAlias :
      Instances.next
        (relabel (aliasTo taken old new) new name) a ≠ none)
    (hEnd : Ends (Instances.next base) a s) :
    nameOf (relabel (aliasTo taken old new) new name) a =
      if s = old ∨ s = new then some name
      else nameOf base a := by
  have hWhole := hTaken.ends_relabel hNe hEnd
  rw [next_relabel] at hWhole hAlias
  rw [Instances.nameOf_relabel]
  by_cases hLast : s = old ∨ s = new
  · have hThere : (if s = old then new else s) = new := by
      rcases hLast with hOld | hNew
      · rw [if_pos hOld]
      · rw [hNew, if_neg (Ne.symm hNe)]
    rw [hThere] at hWhole
    rw [if_pos hLast,
      if_pos (chainEnd_eq_some_iff.mpr ⟨hAlias, hWhole⟩)]
    cases hName : nameOf (aliasTo taken old new) a with
    | none =>
        have hRow := get?_isSome_of_next hAlias
        unfold nameOf at hName
        rw [Option.map_eq_none_iff] at hName
        rw [hName] at hRow
        cases hRow
    | some m => rfl
  · rw [not_or] at hLast
    rw [if_neg hLast.1] at hWhole
    have hElse :
        chainEnd (aliasTo taken old new) a ≠ some new := by
      intro hNew
      exact hLast.2
        (hWhole.unique (chainEnd_eq_some_iff.mp hNew).2)
    have hOther : a ≠ new := by
      rintro rfl
      exact hLast.2 (hEnd.eq_of_none hTaken.newEnd)
    rw [if_neg hElse, if_neg (not_or.mpr hLast),
      nameOf_aliasTo, (hTaken.others a hOther).1]

theorem Taken.sound_relabel
    (hTaken : Taken base taken old new name)
    (hNe : old ≠ new) :
    Sound (relabel (aliasTo taken old new) new name) := by
  have hNew :
      held (relabel (aliasTo taken old new) new name) new =
        some name := by
    rw [hTaken.held_relabel, if_neg (Ne.symm hNe),
      hTaken.newSlot]
  have hBase :
      ∀ s n, s ≠ new →
        held (relabel (aliasTo taken old new) new name) s =
          some n →
        s ≠ old ∧ held base s = some n := by
    intro s n hOther hHeld
    rw [hTaken.held_relabel] at hHeld
    split at hHeld
    · cases hHeld
    · rename_i hOld
      rw [(hTaken.others s hOther).2] at hHeld
      exact ⟨hOld, hHeld⟩
  have hAlone :
      ∀ s, s ≠ new →
        held (relabel (aliasTo taken old new) new name) s ≠
          some name := by
    intro s hOther hHeld
    rcases hBase s name hOther hHeld with ⟨hOld, hSame⟩
    exact hTaken.fresh s hOld hOther hSame
  have hPointed :
      ∀ a,
        Instances.next
            (relabel (aliasTo taken old new) new name) a ≠
          none →
        a = old ∨ Instances.next base a ≠ none := by
    intro a hAlias
    rw [next_relabel, next_aliasTo hTaken.oldRow,
      hTaken.next] at hAlias
    by_cases hOld : a = old
    · exact Or.inl hOld
    · rw [Function.update_of_ne hOld] at hAlias
      exact Or.inr hAlias
  refine ⟨?_, ?_, ?_, ?_⟩
  · intro a
    rcases hTaken.sound.ends a with ⟨s, hEnd⟩
    exact ⟨_, hTaken.ends_relabel hNe hEnd⟩
  · intro s t n hS hT
    by_cases hSNew : s = new
    · by_cases hTNew : t = new
      · rw [hSNew, hTNew]
      · rw [hSNew, hNew] at hS
        rw [← hS] at hT
        exact absurd hT (hAlone t hTNew)
    · by_cases hTNew : t = new
      · rw [hTNew, hNew] at hT
        rw [← hT] at hS
        exact absurd hS (hAlone s hSNew)
      · exact hTaken.sound.distinct s t n
          (hBase s n hSNew hS).2 (hBase t n hTNew hT).2
  · intro a s n hAlias hEnd hHeld
    rcases hTaken.sound.ends a with ⟨t, hBefore⟩
    have hSame := hEnd.unique (hTaken.ends_relabel hNe hBefore)
    rw [hTaken.nameOf_relabel hNe hAlias hBefore]
    by_cases hLast : t = old ∨ t = new
    · have hThere : s = new := by
        rcases hLast with hOld | hNewEnd
        · rw [hSame, if_pos hOld]
        · rw [hSame, hNewEnd, if_neg (Ne.symm hNe)]
      rw [if_pos hLast, ← hHeld, hThere, hNew]
    · rw [if_neg hLast]
      rw [not_or] at hLast
      rw [if_neg hLast.1] at hSame
      rw [← hSame] at hBefore hLast
      rcases hPointed a hAlias with rfl | hPoints
      · exact absurd (hBefore.eq_of_none hTaken.oldEnd) hLast.1
      · exact hTaken.sound.follows a s n hPoints hBefore
          (hBase s n hLast.2 hHeld).2
  · intro a s n hAlias hShows hHeld
    rcases hTaken.sound.ends a with ⟨t, hBefore⟩
    rw [hTaken.nameOf_relabel hNe hAlias hBefore] at hShows
    have hAfter := hTaken.ends_relabel hNe hBefore
    by_cases hLast : t = old ∨ t = new
    · rw [if_pos hLast, Option.some.injEq] at hShows
      rw [← hShows] at hHeld
      have hThere : s = new := by
        by_contra hOther
        exact hAlone s hOther hHeld
      have hEnd : (if t = old then new else t) = new := by
        rcases hLast with hOld | hNewEnd
        · rw [if_pos hOld]
        · rw [hNewEnd, if_neg (Ne.symm hNe)]
      rw [hEnd] at hAfter
      rw [hThere]
      exact hAfter
    · rw [if_neg hLast] at hShows
      rw [not_or] at hLast
      rcases hPointed a hAlias with rfl | hPoints
      · exact absurd (hBefore.eq_of_none hTaken.oldEnd) hLast.1
      · by_cases hSNew : s = new
        · rw [hSNew, hNew] at hHeld
          rw [← hHeld] at hShows
          rcases hTaken.shown a hPoints hShows with hOld | hEnd
          · exact absurd (hBefore.unique hOld) hLast.1
          · exact absurd (hBefore.unique hEnd) hLast.2
        · rcases hBase s n hSNew hHeld with ⟨hSOld, hSlot⟩
          have hEnd :=
            hTaken.sound.apart a s n hPoints hShows hSlot
          have hLeads := hTaken.ends_relabel hNe hEnd
          rw [if_neg hSOld] at hLeads
          exact hLeads

theorem sound_rename
    (hSound : Sound rows) :
    Sound (rename old new now rows) := by
  unfold rename
  split
  · exact hSound
  · rename_i hMoves
    rw [not_or] at hMoves
    rcases taken_takeSlot hSound hMoves.1 hMoves.2 now with
      ⟨base, hTaken⟩
    exact hTaken.sound_relabel hMoves.1

end Instances
