import AgentWays.Settings.MergeSpec

/-
  When the self-audit passes.

  The two views differ in no shared field of a document of
  the expected shape, whatever the base records. A part of
  another shape is kept in the view before the merge and is
  gone from the one after, but for one: a hook event that is
  not a list is dropped from both.

  Key definitions include:
    * `Settings.ShipsOurs`
    * `Settings.Shaped`
    * `Settings.HookLists`
    * `Settings.WellFormed`

  Main declarations:
    * `Settings.views_eq_of_shaped`
    * `Settings.shaped_of_views_eq`
    * `Settings.auditPasses_iff_shaped`
-/

------------------------------------------------------------
-- Shapes
------------------------------------------------------------

namespace Settings

open Json

def IsList
    (v : Value) : Prop :=
  ∃ items, v = .array items

def IsMap
    (v : Value) : Prop :=
  ∃ m, v = .obj m

/- Every shipped hook entry is ours by its shape. -/
def ShipsOurs
    (desired : Value) : Prop :=
  ∀ event, ∀ e ∈ entriesOf (fieldsOf desired) event,
    entryIsOurs e = true

/-
  The parts of a document the merge rewrites as objects and
  lists are such, where they are there at all.
-/
structure Shaped (live : Value) : Prop where
  hooks : ∀ v ∈ live.get? "hooks", IsMap v
  permissions : ∀ v ∈ live.get? "permissions", IsMap v
  allow : ∀ v ∈ (theirPermissions live).get? "allow", IsList v
  deny : ∀ v ∈ (theirPermissions live).get? "deny", IsList v

/- Every hook event is a list. -/
def HookLists
    (live : Value) : Prop :=
  ∀ event, ∀ v ∈ (hooksObject live).get? event, IsList v

/- A settings object as Claude Code writes it. -/
structure WellFormed (live : Value) : Prop where
  isMap : IsMap live
  shaped : Shaped live
  hookLists : HookLists live

theorem isList_iff
    {v : Value} :
    IsList v ↔ v.asArray.isSome = true := by
  rw [Option.isSome_iff_exists]
  simp only [IsList, Value.asArray_eq_some]

theorem isMap_iff
    {v : Value} :
    IsMap v ↔ v.asObject.isSome = true := by
  rw [Option.isSome_iff_exists]
  simp only [IsMap, Value.asObject_eq_some]

theorem asArray_eq_none
    {v : Value}
    (hList : ¬ IsList v) :
    v.asArray = none := by
  rw [isList_iff] at hList
  simpa using hList

theorem asObject_eq_none
    {v : Value}
    (hMap : ¬ IsMap v) :
    v.asObject = none := by
  rw [isMap_iff] at hMap
  simpa using hMap

/- Objects that agree on every field are equal. -/
theorem eq_of_get?_eq
    {v w : Value}
    (hv : IsMap v)
    (hw : IsMap w)
    (hGet : ∀ key, v.get? key = w.get? key) :
    v = w := by
  rcases hv with ⟨m, rfl⟩
  rcases hw with ⟨n, rfl⟩
  apply congrArg Value.obj
  apply KeyMap.ext_get?
  intro key
  simpa only [Value.get?_obj] using hGet key

/- An entry is of an event that is there. -/
theorem mem_keys_of_mem_entriesOf
    {hooks : KeyMap String Value}
    {event : String}
    {e : Value}
    (hMem : e ∈ entriesOf hooks event) :
    event ∈ hooks.keys := by
  rw [KeyMap.mem_keys]
  by_contra hNone
  have hGet : hooks.get? event = none := by
    simpa using hNone
  rw [entriesOf_of_none hGet] at hMem
  cases hMem

/- What holds of every entry is checked event by event. -/
theorem forall_entriesOf_iff
    {hooks : KeyMap String Value}
    {P : String → Value → Prop} :
    (∀ event ∈ hooks.keys, ∀ e ∈ entriesOf hooks event,
        P event e) ↔
      ∀ event, ∀ e ∈ entriesOf hooks event, P event e := by
  constructor
  · intro hKeys event e hMem
    exact hKeys event (mem_keys_of_mem_entriesOf hMem) e hMem
  · intro hAll event _
    exact hAll event

/- So is what holds of every event's value. -/
theorem forall_get?_iff
    {m : KeyMap String Value}
    {P : Value → Prop} :
    (∀ key ∈ m.keys, ∀ v ∈ m.get? key, P v) ↔
      ∀ key, ∀ v ∈ m.get? key, P v := by
  constructor
  · intro hKeys key v hGet
    refine hKeys key ?_ v hGet
    rw [KeyMap.mem_keys]
    exact Option.isSome_iff_exists.mpr ⟨v, hGet⟩
  · intro hAll key _
    exact hAll key

instance
    (v : Value) :
    Decidable (IsList v) :=
  decidable_of_iff _ isList_iff.symm

instance
    (v : Value) :
    Decidable (IsMap v) :=
  decidable_of_iff _ isMap_iff.symm

instance
    (desired : Value) :
    Decidable (ShipsOurs desired) :=
  decidable_of_iff
    (∀ event ∈ (fieldsOf desired).keys,
      ∀ e ∈ entriesOf (fieldsOf desired) event,
        entryIsOurs e = true)
    forall_entriesOf_iff

instance
    (live : Value) :
    Decidable (HookLists live) :=
  decidable_of_iff
    (∀ event ∈ (hooksObject live).keys,
      ∀ v ∈ (hooksObject live).get? event, IsList v)
    forall_get?_iff

instance
    (live : Value) :
    Decidable (Shaped live) :=
  decidable_of_iff
    ((∀ v ∈ live.get? "hooks", IsMap v) ∧
      (∀ v ∈ live.get? "permissions", IsMap v) ∧
      (∀ v ∈ (theirPermissions live).get? "allow",
        IsList v) ∧
      (∀ v ∈ (theirPermissions live).get? "deny", IsList v))
    (by
      constructor
      · rintro ⟨hHooks, hPermissions, hAllow, hDeny⟩
        exact ⟨hHooks, hPermissions, hAllow, hDeny⟩
      · rintro ⟨hHooks, hPermissions, hAllow, hDeny⟩
        exact ⟨hHooks, hPermissions, hAllow, hDeny⟩)

instance
    (live : Value) :
    Decidable (WellFormed live) :=
  decidable_of_iff
    (IsMap live ∧ Shaped live ∧ HookLists live)
    (by
      constructor
      · rintro ⟨hMap, hShaped, hLists⟩
        exact ⟨hMap, hShaped, hLists⟩
      · rintro ⟨hMap, hShaped, hLists⟩
        exact ⟨hMap, hShaped, hLists⟩)

end Settings

------------------------------------------------------------
-- The View, Field By Field
------------------------------------------------------------

namespace Settings

open Json

theorem userHooks_get?
    (hooks owned : KeyMap String Value)
    (event : String) :
    (userHooks hooks owned).get? event =
      listField
        (userEntries (entriesOf hooks event)
          (entriesOf owned event)) := by
  rw [userHooks, KeyMap.get?_filterMap]
  cases hField : hooks.get? event with
  | none =>
      rw [entriesOf_of_none hField]
      rfl
  | some v => simp [entriesOf, hField]

theorem stripHooks_get?
    (obj : KeyMap String Value)
    (base : Owned)
    {key : String}
    (hKey : key ≠ "hooks") :
    (stripHooks obj base).get? key = obj.get? key := by
  unfold stripHooks
  split
  · simp [hKey]
  · rfl

theorem stripPermissions_get?
    (obj : KeyMap String Value)
    (base : Owned)
    {key : String}
    (hKey : key ≠ "permissions") :
    (stripPermissions obj base).get? key = obj.get? key := by
  unfold stripPermissions
  split
  · simp [hKey]
  · rfl

theorem stripTheme_get?
    (obj : KeyMap String Value)
    (base : Owned)
    {key : String}
    (hKey : key ≠ "theme") :
    (stripTheme obj base).get? key = obj.get? key := by
  unfold stripTheme
  split
  · simp [hKey]
  · rfl

theorem stripList_get?
    (perms : KeyMap String Value)
    (owned : List String)
    {key key' : String}
    (hKey : key' ≠ key) :
    (stripList perms key owned).get? key' =
      perms.get? key' := by
  unfold stripList
  split
  · simp [hKey]
  · rfl

/- A list field is stripped of the strings owned. -/
theorem stripList_get?_self
    {perms : KeyMap String Value}
    {key : String}
    (owned : List String)
    (hList : ∀ v ∈ perms.get? key, IsList v) :
    (stripList perms key owned).get? key =
      listField
        ((listOf perms key).filter
          (fun v => !listedStr owned v)) := by
  unfold stripList listOf
  cases hField : perms.get? key with
  | none => simp [hField]
  | some v =>
      rcases hList v hField with ⟨items, rfl⟩
      simp

/- A field that is no list is kept as it is. -/
theorem stripList_of_not_isList
    {perms : KeyMap String Value}
    {key : String}
    {v : Value}
    (owned : List String)
    (hField : perms.get? key = some v)
    (hList : ¬ IsList v) :
    stripList perms key owned = perms := by
  simp [stripList, hField, asArray_eq_none hList]

/- The user's part of a permissions object. -/
def userPermissions
    (perms : KeyMap String Value)
    (base : Owned) : KeyMap String Value :=
  stripList (stripList perms "allow" base.perms) "deny"
    base.deny

theorem view_other
    (settings : Value)
    (base : Owned)
    {key : String}
    (hHooks : key ≠ "hooks")
    (hPermissions : key ≠ "permissions")
    (hTheme : key ≠ "theme") :
    (strippedUserView settings base).get? key =
      settings.get? key := by
  rw [strippedUserView, Value.get?_obj,
    stripTheme_get? _ _ hTheme,
    stripPermissions_get? _ _ hPermissions,
    stripHooks_get? _ _ hHooks, get?_fieldsOf]

theorem view_theme
    (settings : Value)
    (base : Owned) :
    (strippedUserView settings base).get? "theme" =
      if base.theme.isSome then none
      else settings.get? "theme" := by
  rw [strippedUserView, Value.get?_obj, stripTheme]
  split
  · simp
  · rw [stripPermissions_get? _ _ (by decide),
      stripHooks_get? _ _ (by decide), get?_fieldsOf]

theorem userHooks_empty
    (owned : KeyMap String Value) :
    userHooks KeyMap.empty owned = KeyMap.empty := rfl

theorem userPermissions_empty
    (base : Owned) :
    userPermissions KeyMap.empty base = KeyMap.empty := rfl

/- Hooks of the right shape are stripped to the user's. -/
theorem view_hooks
    {settings : Value}
    (base : Owned)
    (hMap : ∀ v ∈ settings.get? "hooks", IsMap v) :
    (strippedUserView settings base).get? "hooks" =
      mapField
        (userHooks (hooksObject settings) base.hooks) := by
  rw [strippedUserView, Value.get?_obj,
    stripTheme_get? _ _ (by decide),
    stripPermissions_get? _ _ (by decide), stripHooks,
    hooksObject, get?_fieldsOf]
  cases hField : settings.get? "hooks" with
  | none =>
      simp only [Option.bind_none, Option.getD_none,
        userHooks_empty, get?_fieldsOf]
      exact hField
  | some v =>
      rcases hMap v hField with ⟨hooks, rfl⟩
      simp

/- Hooks of another shape are kept as they are. -/
theorem view_hooks_of_not_isMap
    {settings v : Value}
    (base : Owned)
    (hField : settings.get? "hooks" = some v)
    (hMap : ¬ IsMap v) :
    (strippedUserView settings base).get? "hooks" =
      some v := by
  rw [strippedUserView, Value.get?_obj,
    stripTheme_get? _ _ (by decide),
    stripPermissions_get? _ _ (by decide), stripHooks,
    get?_fieldsOf, hField]
  simp [asObject_eq_none hMap, get?_fieldsOf, hField]

/- So are the permissions, by list. -/
theorem view_permissions
    {settings : Value}
    (base : Owned)
    (hMap : ∀ v ∈ settings.get? "permissions", IsMap v) :
    (strippedUserView settings base).get? "permissions" =
      mapField
        (userPermissions (theirPermissions settings)
          base) := by
  rw [strippedUserView, Value.get?_obj,
    stripTheme_get? _ _ (by decide), stripPermissions,
    stripHooks_get? _ _ (by decide), theirPermissions,
    permissionsObject, get?_fieldsOf]
  cases hField : settings.get? "permissions" with
  | none =>
      simp only [Option.bind_none, Option.getD_none,
        userPermissions_empty]
      rw [stripHooks_get? _ _ (by decide), get?_fieldsOf]
      exact hField
  | some v =>
      rcases hMap v hField with ⟨perms, rfl⟩
      simp [userPermissions]

theorem view_permissions_of_not_isMap
    {settings v : Value}
    (base : Owned)
    (hField : settings.get? "permissions" = some v)
    (hMap : ¬ IsMap v) :
    (strippedUserView settings base).get? "permissions" =
      some v := by
  rw [strippedUserView, Value.get?_obj,
    stripTheme_get? _ _ (by decide), stripPermissions,
    stripHooks_get? _ _ (by decide), get?_fieldsOf, hField]
  simp only [Option.bind_some, asObject_eq_none hMap]
  rw [stripHooks_get? _ _ (by decide), get?_fieldsOf]
  exact hField

/- Views are equal when they agree on every field. -/
theorem view_ext
    {v w : Value}
    {a b : Owned}
    (hGet :
      ∀ key,
        (strippedUserView v a).get? key =
          (strippedUserView w b).get? key) :
    strippedUserView v a = strippedUserView w b :=
  eq_of_get?_eq ⟨_, rfl⟩ ⟨_, rfl⟩ hGet

end Settings

------------------------------------------------------------
-- The Record Of The View Before
------------------------------------------------------------

namespace Settings

open Json

@[simp] theorem themeStripped_hooks
    (strip : Owned)
    (moves : Bool) :
    (themeStripped strip moves).hooks = strip.hooks := by
  cases moves <;> rfl

@[simp] theorem themeStripped_perms
    (strip : Owned)
    (moves : Bool) :
    (themeStripped strip moves).perms = strip.perms := by
  cases moves <;> rfl

@[simp] theorem themeStripped_deny
    (strip : Owned)
    (moves : Bool) :
    (themeStripped strip moves).deny = strip.deny := by
  cases moves <;> rfl

theorem unionOwned_perms
    (a b : Owned) :
    (unionOwned a b).perms = pushMissing a.perms b.perms := rfl

theorem unionOwned_deny
    (a b : Owned) :
    (unionOwned a b).deny = pushMissing a.deny b.deny := rfl

/- An event owned by either record is owned by the union. -/
theorem mem_entriesOf_unionOwned
    {a b : Owned}
    {event : String}
    {e : Value} :
    e ∈ entriesOf (unionOwned a b).hooks event ↔
      e ∈ entriesOf a.hooks event ∨
        e ∈ entriesOf b.hooks event := by
  simp only [entriesOf, unionOwned, KeyMap.get?_updateAll]
  cases b.hooks.get? event with
  | none => simp
  | some v => simp

theorem userEntries_append
    (xs ys owned : List Value) :
    userEntries (xs ++ ys) owned =
      userEntries xs owned ++ userEntries ys owned :=
  List.filter_append xs ys

/- The user's entries of an event are not the merge's. -/
theorem userEntries_mergeEvent
    {theirs base ours owned : List Value}
    (hOurs : ∀ e ∈ ours, entryIsOurs e = true)
    (hOwned :
      ∀ e,
        e ∈ owned ↔
          e ∈ base ∨ e ∈ ours.map quoteEntryCommands) :
    userEntries theirs owned =
      userEntries (mergeEvent theirs base ours false)
        (ours.map quoteEntryCommands) := by
  have hAdded :
      userEntries (ours.map quoteEntryCommands)
        (ours.map quoteEntryCommands) = [] := by
    apply List.filter_eq_nil_iff.mpr
    intro e hMem
    simp [hMem]
  simp only [mergeEvent, Bool.false_eq_true, if_false]
  rw [userEntries_append, hAdded, List.append_nil,
    userEntries, userEntries, List.filter_filter]
  apply List.filter_congr
  intro e _
  -- A raw shipped entry is known by its shape already.
  by_cases hShape : entryIsOurs e = true
  · simp [hShape]
  · have hRaw : e ∉ ours := by
      intro hMem
      exact hShape (hOurs e hMem)
    have hIff := hOwned e
    by_cases hBase : e ∈ base
    · simp [hIff, hBase]
    · by_cases hQuoted : e ∈ ours.map quoteEntryCommands
      · simp only [hIff, hQuoted, or_true, not_true_eq_false,
          decide_false, Bool.false_and]
      · simp only [hIff, hQuoted, hBase, hRaw, hShape,
          or_self, not_false_eq_true, decide_true,
          Bool.not_false, Bool.and_self]

/- Stripped of what is recorded, a list is the user's. -/
theorem userStrings_mergeStrings
    (theirs : List Value)
    (ours base : List String) :
    theirs.filter
        (fun v =>
          !listedStr
            (pushMissing base
              (recordStrings theirs ours base)) v) =
      (mergeStrings theirs ours base).filter
        (fun v =>
          !listedStr (recordStrings theirs ours base) v) := by
  rcases mergeStrings_eq_append theirs ours base with
    ⟨added, hEq, hAdded⟩
  have hStripped :
      added.filter
        (fun v =>
          !listedStr (recordStrings theirs ours base) v) =
        [] := by
    apply List.filter_eq_nil_iff.mpr
    intro v hMem
    simp [hAdded v hMem]
  rw [hEq, List.filter_append, hStripped,
    List.append_nil, List.filter_filter]
  apply List.filter_congr
  intro v _
  rw [Bool.eq_iff_iff]
  simp only [Bool.not_eq_true', Bool.and_eq_true,
    ← Bool.not_eq_true, listedStr_eq_true, mem_pushMissing,
    List.mem_filter, decide_eq_true_eq]
  constructor
  · intro hNone
    constructor
    · rintro ⟨s, hs, rfl⟩
      exact hNone ⟨s, Or.inr hs, rfl⟩
    · rintro ⟨s, ⟨hs, -⟩, rfl⟩
      exact hNone ⟨s, Or.inl hs, rfl⟩
  · rintro ⟨hRecord, hDeprecated⟩ ⟨s, hs | hs, rfl⟩
    · by_cases hOurs : s ∈ ours
      · exact hRecord
          ⟨s, mem_recordStrings.mpr ⟨hOurs, Or.inl hs⟩, rfl⟩
      · exact hDeprecated ⟨s, ⟨hs, hOurs⟩, rfl⟩
    · exact hRecord ⟨s, hs, rfl⟩

end Settings

------------------------------------------------------------
-- The Two Views
------------------------------------------------------------

namespace Settings

open Json

theorem userPermissions_allow
    {perms : KeyMap String Value}
    (base : Owned)
    (hAllow : ∀ v ∈ perms.get? "allow", IsList v) :
    (userPermissions perms base).get? "allow" =
      listField
        ((listOf perms "allow").filter
          (fun v => !listedStr base.perms v)) := by
  rw [userPermissions, stripList_get? _ _ (by decide),
    stripList_get?_self _ hAllow]

theorem userPermissions_deny
    {perms : KeyMap String Value}
    (base : Owned)
    (hDeny : ∀ v ∈ perms.get? "deny", IsList v) :
    (userPermissions perms base).get? "deny" =
      listField
        ((listOf perms "deny").filter
          (fun v => !listedStr base.deny v)) := by
  have hKept :
      (stripList perms "allow" base.perms).get? "deny" =
        perms.get? "deny" :=
    stripList_get? _ _ (by decide)
  rw [userPermissions, stripList_get?_self]
  · rw [listOf, hKept, ← listOf]
  · rw [hKept]
    exact hDeny

theorem userPermissions_other
    (perms : KeyMap String Value)
    (base : Owned)
    {key : String}
    (hAllow : key ≠ "allow")
    (hDeny : key ≠ "deny") :
    (userPermissions perms base).get? key =
      perms.get? key := by
  rw [userPermissions, stripList_get? _ _ hDeny,
    stripList_get? _ _ hAllow]

theorem isList_of_listField
    {items : List Value}
    {v : Value}
    (hField : listField items = some v) :
    IsList v := by
  unfold listField at hField
  split at hField
  · cases hField
  · exact ⟨items, (Option.some.inj hField).symm⟩

theorem isMap_of_mapField
    {m : KeyMap String Value}
    {v : Value}
    (hField : mapField m = some v) :
    IsMap v := by
  unfold mapField at hField
  split at hField
  · cases hField
  · exact ⟨m, (Option.some.inj hField).symm⟩

theorem isList_merged_allow
    (perms : KeyMap String Value)
    (base : Owned)
    (denySecrets : Bool) :
    ∀ v ∈ (mergePermissions perms base denySecrets
        false).get? "allow",
      IsList v := by
  intro v hField
  rw [mergePermissions_allow] at hField
  exact ⟨_, (Option.some.inj hField).symm⟩

theorem isList_merged_deny
    (perms : KeyMap String Value)
    (base : Owned)
    (denySecrets withdrawing : Bool) :
    ∀ v ∈ (mergePermissions perms base denySecrets
        withdrawing).get? "deny",
      IsList v := by
  intro v hField
  rw [mergePermissions_deny] at hField
  exact isList_of_listField hField

end Settings

namespace Settings

open Json

variable
  {live desired : Value}
  {base : Owned}
  {denySecrets wantTheme : Bool}

/- What a merge leaves has the shape the audit expects. -/
theorem shaped_merge :
    Shaped
      (merge live desired base denySecrets
        wantTheme).settings := by
  unfold merge
  constructor
  · intro v hField
    rw [mergeImpl_hooks] at hField
    exact isMap_of_mapField hField
  · intro v hField
    rw [mergeImpl_permissions] at hField
    exact ⟨_, (Option.some.inj hField).symm⟩
  · rw [theirPermissions_mergeImpl]
    exact isList_merged_allow _ _ _
  · rw [theirPermissions_mergeImpl]
    exact isList_merged_deny _ _ _ _

theorem userHooks_merge
    (hShips : ShipsOurs desired) :
    userHooks (hooksObject live)
        (unionOwned base
          (merge live desired base denySecrets
            wantTheme).base).hooks =
      userHooks
        (hooksObject
          (merge live desired base denySecrets
            wantTheme).settings)
        (merge live desired base denySecrets
          wantTheme).base.hooks := by
  apply KeyMap.ext_get?
  intro event
  rw [userHooks_get?, userHooks_get?]
  unfold merge
  rw [hooksObject_mergeImpl, entriesOf_mergeHooks,
    mergeImpl_base_hooks, entriesOf_baseHooks]
  congr 1
  apply userEntries_mergeEvent (hShips event)
  intro e
  rw [mem_entriesOf_unionOwned, mergeImpl_base_hooks,
    entriesOf_baseHooks]

theorem userPermissions_merge
    (desired : Value)
    (base : Owned)
    (denySecrets wantTheme : Bool)
    (hAllow :
      ∀ v ∈ (theirPermissions live).get? "allow", IsList v)
    (hDeny :
      ∀ v ∈ (theirPermissions live).get? "deny", IsList v) :
    userPermissions (theirPermissions live)
        (unionOwned base
          (merge live desired base denySecrets
            wantTheme).base) =
      userPermissions
        (theirPermissions
          (merge live desired base denySecrets
            wantTheme).settings)
        (merge live desired base denySecrets
          wantTheme).base := by
  unfold merge
  rw [theirPermissions_mergeImpl]
  apply KeyMap.ext_get?
  intro key
  by_cases hKeyAllow : key = "allow"
  · subst hKeyAllow
    rw [userPermissions_allow _ hAllow,
      userPermissions_allow _ (isList_merged_allow _ _ _),
      listOf_mergePermissions_allow, unionOwned_perms,
      mergeImpl_base_perms]
    exact congrArg listField (userStrings_mergeStrings _ _ _)
  · by_cases hKeyDeny : key = "deny"
    · subst hKeyDeny
      rw [userPermissions_deny _ hDeny,
        userPermissions_deny _ (isList_merged_deny _ _ _ _),
        listOf_mergePermissions_deny, unionOwned_deny,
        mergeImpl_base_deny]
      exact congrArg listField
        (userStrings_mergeStrings _ _ _)
    · rw [userPermissions_other _ _ hKeyAllow hKeyDeny,
        userPermissions_other _ _ hKeyAllow hKeyDeny,
        mergePermissions_other _ _ _ _ hKeyAllow hKeyDeny]

/- A theme that may not move is not moved. -/
theorem theme_of_not_moves
    (hStays :
      themeMayMove live
        [base,
          (merge live desired base denySecrets
            wantTheme).base] =
        false) :
    base.theme = none ∧
      (merge live desired base denySecrets
          wantTheme).base.theme = none ∧
      (merge live desired base denySecrets
          wantTheme).settings.get? "theme" =
        live.get? "theme" := by
  simp only [themeMayMove, List.any_cons, List.any_nil,
    Bool.or_false, Bool.or_eq_false_iff,
    decide_eq_false_iff_not, Option.isSome_eq_false_iff,
    Option.isNone_iff_eq_none] at hStays
  rcases hStays with ⟨⟨hBase, hNew⟩, hLive⟩
  refine ⟨hBase, hNew, ?_⟩
  unfold merge at hNew ⊢
  rw [mergeImpl_base_theme] at hNew
  rw [mergeImpl_theme]
  -- An unclaimed theme the mod wants would be claimed.
  cases wantTheme with
  | true => simp [themed, mergeTheme, hBase] at hNew
  | false =>
      simp [themed, mergeTheme, hBase, hLive, get?_fieldsOf]

theorem view_theme_merge :
    (userBefore live base
          (merge live desired base denySecrets
            wantTheme)).get? "theme" =
      (userAfter live base
          (merge live desired base denySecrets
            wantTheme)).get? "theme" := by
  rw [userBefore, userAfter, view_theme, view_theme]
  cases hMoves :
    themeMayMove live
      [base,
        (merge live desired base denySecrets
          wantTheme).base] with
  | true => simp [themeStripped]
  | false =>
      rcases theme_of_not_moves hMoves with
        ⟨hBase, hNew, hSame⟩
      simp [themeStripped, unionOwned, hBase, hNew, hSame]

end Settings

------------------------------------------------------------
-- When The Audit Passes
------------------------------------------------------------

namespace Settings

open Json

variable
  {live desired : Value}
  {base : Owned}
  {denySecrets wantTheme : Bool}

/- The views of a document of the right shape are equal. -/
theorem views_eq_of_shaped
    (hShips : ShipsOurs desired)
    (hShaped : Shaped live) :
    userBefore live base
        (merge live desired base denySecrets wantTheme) =
      userAfter live base
        (merge live desired base denySecrets wantTheme) := by
  apply view_ext
  intro key
  by_cases hTheme : key = "theme"
  · subst hTheme
    exact view_theme_merge
  · by_cases hHooks : key = "hooks"
    · subst hHooks
      rw [view_hooks _ hShaped.hooks,
        view_hooks _ shaped_merge.hooks,
        themeStripped_hooks, themeStripped_hooks,
        userHooks_merge hShips]
    · by_cases hPermissions : key = "permissions"
      · subst hPermissions
        rw [view_permissions _ hShaped.permissions,
          view_permissions _ shaped_merge.permissions]
        have hUser :=
          userPermissions_merge desired base denySecrets
            wantTheme hShaped.allow hShaped.deny
        simpa only [userPermissions, themeStripped_perms,
          themeStripped_deny] using congrArg mapField hUser
      · rw [view_other _ _ hHooks hPermissions hTheme,
          view_other _ _ hHooks hPermissions hTheme]
        exact (mergeImpl_other live desired base denySecrets
          wantTheme false hHooks hPermissions hTheme).symm

theorem mapField_injective
    {m n : KeyMap String Value}
    (hSame : mapField m = mapField n) :
    m = n := by
  rw [← mapField_bind_asObject m, hSame,
    mapField_bind_asObject]

/- A permission list the view keeps whole is a list. -/
theorem isList_of_kept
    {perms perms' : KeyMap String Value}
    {a b : Owned}
    {key : String}
    {v : Value}
    {items : List Value}
    (hSame : userPermissions perms a = userPermissions perms' b)
    (hKept :
      ¬ IsList v →
        (userPermissions perms a).get? key = some v)
    (hStripped :
      (userPermissions perms' b).get? key =
        listField items) :
    IsList v := by
  by_contra hList
  have hField := hKept hList
  rw [hSame, hStripped] at hField
  exact hList (isList_of_listField hField)

/- Equal views are those of a document of the right shape. -/
theorem shaped_of_views_eq
    (hViews :
      userBefore live base
          (merge live desired base denySecrets wantTheme) =
        userAfter live base
          (merge live desired base denySecrets
            wantTheme)) :
    Shaped live := by
  have hMerged :
      Shaped
        (merge live desired base denySecrets
          wantTheme).settings :=
    shaped_merge
  have hHooks : ∀ v ∈ live.get? "hooks", IsMap v := by
    intro v hField
    by_contra hMap
    have hSame := congrArg (fun w => w.get? "hooks") hViews
    simp only [userBefore, userAfter] at hSame
    rw [view_hooks_of_not_isMap _ hField hMap,
      view_hooks _ hMerged.hooks] at hSame
    exact hMap (isMap_of_mapField hSame.symm)
  have hPermissions :
      ∀ v ∈ live.get? "permissions", IsMap v := by
    intro v hField
    by_contra hMap
    have hSame :=
      congrArg (fun w => w.get? "permissions") hViews
    simp only [userBefore, userAfter] at hSame
    rw [view_permissions_of_not_isMap _ hField hMap,
      view_permissions _ hMerged.permissions] at hSame
    exact hMap (isMap_of_mapField hSame.symm)
  have hSame :=
    congrArg (fun w => w.get? "permissions") hViews
  simp only [userBefore, userAfter] at hSame
  rw [view_permissions _ hPermissions,
    view_permissions _ hMerged.permissions] at hSame
  have hUser := mapField_injective hSame
  refine ⟨hHooks, hPermissions, ?_, ?_⟩
  · intro v hField
    refine isList_of_kept hUser ?_
      (userPermissions_allow _ hMerged.allow)
    intro hList
    rw [userPermissions, stripList_get? _ _ (by decide),
      stripList_of_not_isList _ hField hList]
    exact hField
  · intro v hField
    refine isList_of_kept hUser ?_
      (userPermissions_deny _ hMerged.deny)
    intro hList
    have hKept :
        (stripList (theirPermissions live) "allow"
            (themeStripped
              (unionOwned base
                (merge live desired base denySecrets
                  wantTheme).base)
              (themeMayMove live
                [base,
                  (merge live desired base denySecrets
                    wantTheme).base])).perms).get? "deny" =
          some v := by
      rw [stripList_get? _ _ (by decide)]
      exact hField
    rw [userPermissions,
      stripList_of_not_isList _ hKept hList]
    exact hKept

theorem auditPasses_iff_shaped
    (hShips : ShipsOurs desired) :
    auditPasses live base
        (merge live desired base denySecrets wantTheme) =
        true ↔
      Shaped live := by
  rw [auditPasses, decide_eq_true_eq]
  constructor
  · exact shaped_of_views_eq
  · exact views_eq_of_shaped hShips

end Settings
