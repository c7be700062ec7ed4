import AgentWays.Settings.Audit

/-
  What a merge leaves in each field of the document.

  The merge is made of updates of the three shared fields,
  so its result is read field by field: an event's entries,
  a permission list, the theme, and everything else.

  Main declarations:
    * `Settings.entriesOf_mergeHooks`
    * `Settings.mergeImpl_hooks`
    * `Settings.mergeImpl_permissions`
    * `Settings.mergeImpl_other`
-/

------------------------------------------------------------
-- Appending What Is Missing
------------------------------------------------------------

namespace Settings

variable {α : Type} [DecidableEq α]

theorem pushMissing_cons
    (xs ys : List α)
    (y : α) :
    pushMissing xs (y :: ys) =
      pushMissing (if y ∈ xs then xs else xs ++ [y]) ys := rfl

@[simp] theorem mem_pushMissing
    {xs ys : List α}
    {x : α} :
    x ∈ pushMissing xs ys ↔ x ∈ xs ∨ x ∈ ys := by
  induction ys generalizing xs with
  | nil => simp [pushMissing]
  | cons y ys ih =>
      rw [pushMissing_cons, ih]
      by_cases hMem : y ∈ xs
      · rw [if_pos hMem, List.mem_cons]
        constructor
        · rintro (hOld | hNew)
          · exact Or.inl hOld
          · exact Or.inr (Or.inr hNew)
        · rintro (hOld | rfl | hNew)
          · exact Or.inl hOld
          · exact Or.inl hMem
          · exact Or.inr hNew
      · rw [if_neg hMem, List.mem_append, List.mem_singleton,
          List.mem_cons, or_assoc]

/- Nothing is appended where nothing is missing. -/
theorem pushMissing_of_subset
    {xs ys : List α}
    (hSub : ∀ y ∈ ys, y ∈ xs) :
    pushMissing xs ys = xs := by
  induction ys with
  | nil => rfl
  | cons y ys ih =>
      rw [pushMissing_cons, if_pos (hSub y (by simp))]
      apply ih
      intro z hz
      exact hSub z (by simp [hz])

/- What was there stays in front of what is new. -/
theorem pushMissing_eq_append
    (xs ys : List α) :
    ∃ added,
      pushMissing xs ys = xs ++ added ∧
        ∀ a ∈ added, a ∈ ys ∧ a ∉ xs := by
  induction ys generalizing xs with
  | nil => exact ⟨[], by simp [pushMissing], by simp⟩
  | cons y ys ih =>
      rw [pushMissing_cons]
      by_cases hMem : y ∈ xs
      · rw [if_pos hMem]
        rcases ih xs with ⟨added, hEq, hAdded⟩
        refine ⟨added, hEq, ?_⟩
        intro a ha
        exact ⟨List.mem_cons_of_mem _ (hAdded a ha).1,
          (hAdded a ha).2⟩
      · rw [if_neg hMem]
        rcases ih (xs ++ [y]) with ⟨added, hEq, hAdded⟩
        refine ⟨y :: added, by rw [hEq]; simp, ?_⟩
        intro a ha
        rcases List.mem_cons.mp ha with rfl | hTail
        · exact ⟨by simp, hMem⟩
        · have hNew := (hAdded a hTail).2
          rw [List.mem_append, not_or] at hNew
          exact ⟨List.mem_cons_of_mem _ (hAdded a hTail).1,
            hNew.1⟩

end Settings

------------------------------------------------------------
-- Fields
------------------------------------------------------------

namespace Settings

open Json

theorem get?_fieldsOf
    (v : Value)
    (key : String) :
    (fieldsOf v).get? key = v.get? key := by
  unfold fieldsOf Value.get?
  cases v.asObject with
  | none => simp
  | some m => simp

@[simp] theorem listField_bind_asArray
    (items : List Value) :
    ((listField items).bind Value.asArray).getD [] =
      items := by
  unfold listField
  by_cases hEmpty : items.isEmpty = true
  · rw [if_pos hEmpty]
    simpa using hEmpty
  · rw [if_neg hEmpty]
    simp

@[simp] theorem mapField_bind_asObject
    (m : KeyMap String Value) :
    ((mapField m).bind Value.asObject).getD KeyMap.empty =
      m := by
  unfold mapField
  by_cases hEmpty : m.isEmpty = true
  · rw [if_pos hEmpty]
    exact (KeyMap.eq_empty_of_isEmpty hEmpty).symm
  · rw [if_neg hEmpty]
    simp

@[simp] theorem listField_nil :
    listField [] = none := rfl

@[simp] theorem entriesOf_empty
    (event : String) :
    entriesOf KeyMap.empty event = [] := rfl

/- An event that is not there has no entries. -/
theorem entriesOf_of_none
    {hooks : KeyMap String Value}
    {event : String}
    (hNone : hooks.get? event = none) :
    entriesOf hooks event = [] := by
  rw [entriesOf, hNone]
  rfl

theorem listedStr_eq_true
    {strs : List String}
    {v : Value} :
    listedStr strs v = true ↔
      ∃ s ∈ strs, v = .str s := by
  unfold listedStr
  cases hStr : v.asStr with
  | none =>
      simp only [Option.map_none, Option.getD_none,
        Bool.false_eq_true, false_iff, not_exists, not_and]
      rintro s - rfl
      simp at hStr
  | some t =>
      have hValue := Value.asStr_eq_some.mp hStr
      subst hValue
      simp only [Option.map_some, Option.getD_some,
        decide_eq_true_eq]
      constructor
      · intro hMem
        exact ⟨t, hMem, rfl⟩
      · rintro ⟨s, hMem, hEq⟩
        have hSame := congrArg Value.asStr hEq
        simp only [Value.asStr_str, Option.some.injEq] at hSame
        rw [hSame]
        exact hMem

@[simp] theorem listedStr_str
    (strs : List String)
    (s : String) :
    listedStr strs (.str s) = decide (s ∈ strs) := by
  simp [listedStr]

end Settings

------------------------------------------------------------
-- The Merged Hooks
------------------------------------------------------------

namespace Settings

open Json

theorem mergeHooks_get?
    (theirs ours base : KeyMap String Value)
    (withdrawing : Bool)
    (event : String) :
    (mergeHooks theirs ours base withdrawing).get? event =
      listField
        (mergeEvent (entriesOf theirs event)
          (entriesOf base event) (entriesOf ours event)
          withdrawing) := by
  rw [mergeHooks, KeyMap.get?_collect]
  by_cases hMem :
      event ∈ pushMissing theirs.keys ours.keys
  · rw [if_pos hMem]
  · rw [if_neg hMem]
    rw [mem_pushMissing, KeyMap.mem_keys, KeyMap.mem_keys,
      not_or] at hMem
    have hTheirs : theirs.get? event = none := by
      simpa using hMem.1
    have hOurs : ours.get? event = none := by
      simpa using hMem.2
    rw [entriesOf_of_none hTheirs, entriesOf_of_none hOurs]
    simp [mergeEvent]

@[simp] theorem entriesOf_mergeHooks
    (theirs ours base : KeyMap String Value)
    (withdrawing : Bool)
    (event : String) :
    entriesOf (mergeHooks theirs ours base withdrawing)
        event =
      mergeEvent (entriesOf theirs event)
        (entriesOf base event) (entriesOf ours event)
        withdrawing := by
  rw [entriesOf, mergeHooks_get?]
  exact listField_bind_asArray _

theorem baseHooks_get?
    (ours : KeyMap String Value)
    (event : String) :
    (baseHooks ours false).get? event =
      ((ours.get? event).bind Value.asArray).map
        (fun items =>
          .array (items.map quoteEntryCommands)) := by
  simp only [baseHooks, Bool.false_eq_true, if_false,
    KeyMap.get?_filterMap]
  cases ours.get? event with
  | none => rfl
  | some v => rfl

@[simp] theorem entriesOf_baseHooks
    (ours : KeyMap String Value)
    (event : String) :
    entriesOf (baseHooks ours false) event =
      (entriesOf ours event).map quoteEntryCommands := by
  rw [entriesOf, baseHooks_get?, entriesOf]
  cases (ours.get? event).bind Value.asArray with
  | none => rfl
  | some items => simp

end Settings

------------------------------------------------------------
-- The Merged Document
------------------------------------------------------------

namespace Settings

open Json

/- The permissions object the merge starts from. -/
def theirPermissions
    (live : Value) : KeyMap String Value :=
  permissionsObject (fieldsOf live)

theorem mergeTheme_get?
    (out : KeyMap String Value)
    (theirs : Option String)
    (base : Owned)
    (wanted : Bool)
    {key : String}
    (hKey : key ≠ "theme") :
    (mergeTheme out theirs base wanted).1.get? key =
      out.get? key := by
  unfold mergeTheme
  split
  · simp [hKey]
  · split
    · rfl
    · simp [hKey]
  · split
    · rfl
    · split
      · simp [hKey]
      · simp [hKey]
  · split
    · simp [hKey]
    · rfl

theorem permissionsObject_assign_hooks
    (out : KeyMap String Value)
    (v : Option Value) :
    permissionsObject (out.assign "hooks" v) =
      permissionsObject out := by
  simp [permissionsObject]

theorem mergeImpl_hooks
    (live desired : Value)
    (base : Owned)
    (denySecrets wantTheme withdrawing : Bool) :
    (mergeImpl live desired base denySecrets wantTheme
        withdrawing).settings.get? "hooks" =
      mapField
        (mergeHooks (hooksObject live) (fieldsOf desired)
          base.hooks withdrawing) := by
  cases withdrawing <;>
    simp [mergeImpl, mergeTheme_get?]

theorem mergeImpl_permissions
    (live desired : Value)
    (base : Owned)
    (denySecrets wantTheme withdrawing : Bool) :
    (mergeImpl live desired base denySecrets wantTheme
        withdrawing).settings.get? "permissions" =
      let newPerms :=
        mergePermissions (theirPermissions live) base
          denySecrets withdrawing
      if withdrawing then mapField newPerms
      else some (.obj newPerms) := by
  cases withdrawing <;>
    simp [mergeImpl, mergeTheme_get?, theirPermissions,
      permissionsObject_assign_hooks]

theorem mergeImpl_other
    (live desired : Value)
    (base : Owned)
    (denySecrets wantTheme withdrawing : Bool)
    {key : String}
    (hHooks : key ≠ "hooks")
    (hPermissions : key ≠ "permissions")
    (hTheme : key ≠ "theme") :
    (mergeImpl live desired base denySecrets wantTheme
        withdrawing).settings.get? key =
      live.get? key := by
  cases withdrawing <;>
    simp [mergeImpl, mergeTheme_get?, get?_fieldsOf, hHooks,
      hPermissions, hTheme]

@[simp] theorem hooksObject_mergeImpl
    (live desired : Value)
    (base : Owned)
    (denySecrets wantTheme withdrawing : Bool) :
    hooksObject
        (mergeImpl live desired base denySecrets wantTheme
          withdrawing).settings =
      mergeHooks (hooksObject live) (fieldsOf desired)
        base.hooks withdrawing := by
  rw [hooksObject, mergeImpl_hooks]
  exact mapField_bind_asObject _

@[simp] theorem theirPermissions_mergeImpl
    (live desired : Value)
    (base : Owned)
    (denySecrets wantTheme withdrawing : Bool) :
    theirPermissions
        (mergeImpl live desired base denySecrets wantTheme
          withdrawing).settings =
      mergePermissions (theirPermissions live) base
        denySecrets withdrawing := by
  rw [theirPermissions, permissionsObject, get?_fieldsOf,
    mergeImpl_permissions]
  cases withdrawing with
  | false => simp
  | true =>
      simp only [if_true]
      exact mapField_bind_asObject _

end Settings

------------------------------------------------------------
-- The Merged Theme
------------------------------------------------------------

namespace Settings

open Json

/- The claim and the value to give back of the new base. -/
theorem mergeTheme_snd
    (out out' : KeyMap String Value)
    (theirs : Option String)
    (base : Owned)
    (wanted : Bool) :
    (mergeTheme out theirs base wanted).2 =
      (mergeTheme out' theirs base wanted).2 := by
  unfold mergeTheme
  split
  · rfl
  · split <;> rfl
  · split
    · rfl
    · split <;> rfl
  · split <;> rfl

/- The theme key is decided by what it was. -/
theorem mergeTheme_theme
    {out out' : KeyMap String Value}
    (theirs : Option String)
    (base : Owned)
    (wanted : Bool)
    (hSame : out.get? "theme" = out'.get? "theme") :
    (mergeTheme out theirs base wanted).1.get? "theme" =
      (mergeTheme out' theirs base wanted).1.get?
        "theme" := by
  unfold mergeTheme
  split
  · simp
  · split
    · exact hSame
    · simp
  · split
    · exact hSame
    · split <;> simp
  · split
    · simp
    · exact hSame

/- The merge of the theme alone, over the live fields. -/
def themed
    (live : Value)
    (base : Owned)
    (wanted : Bool) :
    KeyMap String Value × Option String × Option String :=
  mergeTheme (fieldsOf live) (themeOf live) base wanted

theorem mergeImpl_theme
    (live desired : Value)
    (base : Owned)
    (denySecrets wantTheme withdrawing : Bool) :
    (mergeImpl live desired base denySecrets wantTheme
        withdrawing).settings.get? "theme" =
      (themed live base (wantTheme && !withdrawing)).1.get?
        "theme" := by
  simp only [mergeImpl, Value.get?_obj, themed]
  apply mergeTheme_theme
  cases withdrawing <;> simp

theorem mergeImpl_base_theme
    (live desired : Value)
    (base : Owned)
    (denySecrets wantTheme withdrawing : Bool) :
    (mergeImpl live desired base denySecrets wantTheme
        withdrawing).base.theme =
      (themed live base (wantTheme && !withdrawing)).2.1 :=
  congrArg Prod.fst (mergeTheme_snd _ _ _ _ _)

theorem mergeImpl_base_priorTheme
    (live desired : Value)
    (base : Owned)
    (denySecrets wantTheme withdrawing : Bool) :
    (mergeImpl live desired base denySecrets wantTheme
        withdrawing).base.priorTheme =
      (themed live base (wantTheme && !withdrawing)).2.2 :=
  congrArg Prod.snd (mergeTheme_snd _ _ _ _ _)

end Settings

------------------------------------------------------------
-- The New Base
------------------------------------------------------------

namespace Settings

open Json

@[simp] theorem mergeImpl_base_hooks
    (live desired : Value)
    (base : Owned)
    (denySecrets wantTheme withdrawing : Bool) :
    (mergeImpl live desired base denySecrets wantTheme
        withdrawing).base.hooks =
      baseHooks (fieldsOf desired) withdrawing := rfl

@[simp] theorem mergeImpl_base_perms
    (live desired : Value)
    (base : Owned)
    (denySecrets wantTheme withdrawing : Bool) :
    (mergeImpl live desired base denySecrets wantTheme
        withdrawing).base.perms =
      recordStrings (listOf (theirPermissions live) "allow")
        (oursPerms withdrawing) base.perms := by
  rw [theirPermissions,
    ← permissionsObject_assign_hooks (fieldsOf live)]
  rfl

@[simp] theorem mergeImpl_base_deny
    (live desired : Value)
    (base : Owned)
    (denySecrets wantTheme withdrawing : Bool) :
    (mergeImpl live desired base denySecrets wantTheme
        withdrawing).base.deny =
      recordStrings (listOf (theirPermissions live) "deny")
        (oursDeny denySecrets withdrawing) base.deny := by
  rw [theirPermissions,
    ← permissionsObject_assign_hooks (fieldsOf live)]
  rfl

end Settings

------------------------------------------------------------
-- The Merged Permissions
------------------------------------------------------------

namespace Settings

open Json

theorem mergePermissions_allow
    (perms : KeyMap String Value)
    (base : Owned)
    (denySecrets : Bool) :
    (mergePermissions perms base denySecrets false).get?
        "allow" =
      some
        (.array
          (mergeStrings (listOf perms "allow") waysPerms
            base.perms)) := by
  simp [mergePermissions, oursPerms]

theorem mergePermissions_allow_withdrawing
    (perms : KeyMap String Value)
    (base : Owned)
    (denySecrets : Bool) :
    (mergePermissions perms base denySecrets true).get?
        "allow" =
      listField
        (mergeStrings (listOf perms "allow") []
          base.perms) := by
  simp [mergePermissions, oursPerms]

theorem mergePermissions_deny
    (perms : KeyMap String Value)
    (base : Owned)
    (denySecrets withdrawing : Bool) :
    (mergePermissions perms base denySecrets
        withdrawing).get? "deny" =
      listField
        (mergeStrings (listOf perms "deny")
          (oursDeny denySecrets withdrawing) base.deny) := by
  cases withdrawing <;>
    simp [mergePermissions, listOf]

theorem mergePermissions_other
    (perms : KeyMap String Value)
    (base : Owned)
    (denySecrets withdrawing : Bool)
    {key : String}
    (hAllow : key ≠ "allow")
    (hDeny : key ≠ "deny") :
    (mergePermissions perms base denySecrets
        withdrawing).get? key =
      perms.get? key := by
  cases withdrawing <;>
    simp [mergePermissions, hAllow, hDeny]

@[simp] theorem listOf_mergePermissions_allow
    (perms : KeyMap String Value)
    (base : Owned)
    (denySecrets withdrawing : Bool) :
    listOf
        (mergePermissions perms base denySecrets withdrawing)
        "allow" =
      mergeStrings (listOf perms "allow")
        (oursPerms withdrawing) base.perms := by
  cases withdrawing with
  | false =>
      simp [listOf, mergePermissions_allow, oursPerms]
  | true =>
      rw [listOf, mergePermissions_allow_withdrawing]
      exact listField_bind_asArray _

@[simp] theorem listOf_mergePermissions_deny
    (perms : KeyMap String Value)
    (base : Owned)
    (denySecrets withdrawing : Bool) :
    listOf
        (mergePermissions perms base denySecrets withdrawing)
        "deny" =
      mergeStrings (listOf perms "deny")
        (oursDeny denySecrets withdrawing) base.deny := by
  rw [listOf, mergePermissions_deny]
  exact listField_bind_asArray _

theorem mem_filterMap_asStr
    {items : List Value}
    {s : String} :
    s ∈ items.filterMap Value.asStr ↔
      Value.str s ∈ items := by
  rw [List.mem_filterMap]
  constructor
  · rintro ⟨v, hMem, hStr⟩
    rw [← Value.asStr_eq_some.mp hStr]
    exact hMem
  · intro hMem
    exact ⟨.str s, hMem, rfl⟩

theorem mem_recordStrings
    {theirs : List Value}
    {ours base : List String}
    {s : String} :
    s ∈ recordStrings theirs ours base ↔
      s ∈ ours ∧ (s ∈ base ∨ Value.str s ∉ theirs) := by
  simp only [recordStrings, List.mem_filter,
    Bool.or_eq_true, decide_eq_true_eq, mem_filterMap_asStr]

/- The user's strings, then what is added and recorded. -/
theorem mergeStrings_eq_append
    (theirs : List Value)
    (ours base : List String) :
    ∃ added,
      mergeStrings theirs ours base =
          theirs.filter
              (fun v =>
                !listedStr
                  (base.filter (fun p => decide (p ∉ ours)))
                  v) ++
            added ∧
        ∀ v ∈ added,
          listedStr (recordStrings theirs ours base) v =
            true := by
  rcases pushMissing_eq_append
    (theirs.filter
      (fun v =>
        !listedStr
          (base.filter (fun p => decide (p ∉ ours))) v))
    (ours.map Value.str) with ⟨added, hEq, hAdded⟩
  refine ⟨added, hEq, ?_⟩
  intro v hMem
  rcases hAdded v hMem with ⟨hOurs, hNew⟩
  rcases List.mem_map.mp hOurs with ⟨s, hs, rfl⟩
  have hMissing : Value.str s ∉ theirs := by
    intro hTheirs
    apply hNew
    simp [hTheirs, hs]
  exact listedStr_eq_true.mpr
    ⟨s, mem_recordStrings.mpr ⟨hs, Or.inr hMissing⟩, rfl⟩

/- The user's strings stay, in their order. -/
theorem sublist_mergeStrings
    (theirs : List Value)
    (ours base : List String) :
    (theirs.filter
        (fun v =>
          !listedStr
            (base.filter (fun p => decide (p ∉ ours)))
            v)).Sublist
      (mergeStrings theirs ours base) := by
  rcases mergeStrings_eq_append theirs ours base with
    ⟨added, hEq, -⟩
  rw [hEq]
  exact List.sublist_append_left _ _

end Settings
