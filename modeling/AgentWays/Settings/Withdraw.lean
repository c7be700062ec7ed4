import AgentWays.Lib.StepMachine
import AgentWays.Settings.SelfAudit

/-
  Install, then withdraw: the user's document comes back.

  Through any run of merges the document is the user's with
  ours added: entries after the user's in each event,
  strings after the user's in each permission list, and the
  theme either untouched or held for the user to get back.
  The base names just what was added, so a withdrawal takes
  out that and nothing else.

  Key definitions include:
    * `Settings.Call`
    * `Settings.install`
    * `Settings.PlainShape`
    * `Settings.UsersOwn`
    * `Settings.AddedTo`
    * `Settings.Installed`

  Main declarations:
    * `Settings.fromValue_toValue`
    * `Settings.installed_merge`
    * `Settings.installed_run`
    * `Settings.withdraw_restores`
-/

------------------------------------------------------------
-- The Record On Disk
------------------------------------------------------------

namespace Settings

open Json

theorem strVec_array
    (strs : List String) :
    strs.filterMap (Value.asStr ∘ Value.str) = strs := by
  induction strs with
  | nil => rfl
  | cons s rest ih => simp [ih]

theorem optionStr_asStr
    (s : Option String) :
    (optionStr s).asStr = s := by
  cases s with
  | none => rfl
  | some s => rfl

/- The base that was written is the base that is read. -/
theorem fromValue_toValue
    (o : Owned) :
    Owned.fromValue o.toValue = o := by
  rcases o with ⟨hooks, perms, deny, theme, priorTheme⟩
  simp [Owned.fromValue, Owned.toValue, strVec,
    KeyMap.ofList, strVec_array, optionStr_asStr]

/- So a kept apply hands its base on to the next one. -/
theorem baseFor_applyToFiles
    {source : Value}
    {files : Files}
    {denySecrets wantTheme : Bool}
    (hMerged :
      (applyToFiles source files denySecrets wantTheme).2 =
        .merged)
    (live : Value) :
    baseFor live
        (applyToFiles source files denySecrets
          wantTheme).1.base =
      (merge (readJsonOrEmpty files.settings)
        ((source.get? "hooks").getD (.obj KeyMap.empty))
        (baseFor (readJsonOrEmpty files.settings) files.base)
        denySecrets wantTheme).base := by
  unfold applyToFiles at hMerged ⊢
  simp only at hMerged ⊢
  split at hMerged
  · cases hMerged
  · rename_i hChanged
    split at hMerged
    · rename_i hPasses
      rw [if_neg hChanged, if_pos hPasses]
      exact fromValue_toValue _
    · cases hMerged

end Settings

------------------------------------------------------------
-- Runs Of Merges
------------------------------------------------------------

namespace Settings

open Json

/- One merge of a run: what it ships and what it wants. -/
structure Call where
  desired : Value
  denySecrets : Bool
  wantTheme : Bool
deriving DecidableEq

/- A merge from where the one before it ended. -/
def mergeMachine : StepMachine Merged Call Unit where
  step m c :=
    (merge m.settings c.desired m.base c.denySecrets
      c.wantTheme, ())

/- A run of merges over a document, from the empty base. -/
def install
    (live : Value)
    (calls : List Call) : Merged :=
  mergeMachine.final
    { settings := live, base := Owned.default } calls

end Settings

------------------------------------------------------------
-- The User's Document
------------------------------------------------------------

namespace Settings

open Json

def FilledList
    (v : Value) : Prop :=
  ∃ items, items ≠ [] ∧ v = .array items

def FilledMap
    (v : Value) : Prop :=
  ∃ m, m.isEmpty = false ∧ v = .obj m

/-
  A document before agent-ways: hooks an object of filled
  lists, permissions a filled object whose lists are filled,
  the theme a string that is not the mod's.
-/
structure PlainShape (live : Value) : Prop where
  isMap : IsMap live
  hooks : ∀ v ∈ live.get? "hooks", IsMap v
  events :
    ∀ event, ∀ v ∈ (hooksObject live).get? event, FilledList v
  permissions :
    ∀ v ∈ live.get? "permissions", FilledMap v
  allow :
    ∀ v ∈ (theirPermissions live).get? "allow", FilledList v
  deny :
    ∀ v ∈ (theirPermissions live).get? "deny", FilledList v
  theme :
    ∀ v ∈ live.get? "theme", ∃ s, s ≠ waysTheme ∧ v = .str s

/- No hook of the user's is ours, or one that is shipped. -/
def UsersOwn
    (live desired : Value) : Prop :=
  ∀ event, ∀ e ∈ entriesOf (hooksObject live) event,
    entryIsOurs e = false ∧
      e ∉ entriesOf (fieldsOf desired) event ∧
      e ∉ (entriesOf (fieldsOf desired) event).map
        quoteEntryCommands

theorem filledList_iff
    {v : Value} :
    FilledList v ↔ v.asArray.getD [] ≠ [] := by
  constructor
  · rintro ⟨items, hItems, rfl⟩
    simpa using hItems
  · intro hItems
    cases hArray : v.asArray with
    | none => simp [hArray] at hItems
    | some items =>
        refine ⟨items, ?_, Value.asArray_eq_some.mp hArray⟩
        simpa [hArray] using hItems

theorem filledMap_iff
    {v : Value} :
    FilledMap v ↔
      (v.asObject.getD KeyMap.empty).isEmpty = false := by
  constructor
  · rintro ⟨m, hm, rfl⟩
    simpa using hm
  · intro hm
    cases hObject : v.asObject with
    | none =>
        rw [hObject] at hm
        cases hm
    | some m =>
        refine ⟨m, ?_, Value.asObject_eq_some.mp hObject⟩
        simpa [hObject] using hm

theorem givenTheme_iff
    {v : Value} :
    (∃ s, s ≠ waysTheme ∧ v = .str s) ↔
      v.asStr.isSome = true ∧ v.asStr ≠ some waysTheme := by
  constructor
  · rintro ⟨s, hs, rfl⟩
    simpa using hs
  · rintro ⟨hSome, hNe⟩
    rcases Option.isSome_iff_exists.mp hSome with ⟨s, hs⟩
    refine ⟨s, ?_, Value.asStr_eq_some.mp hs⟩
    rintro rfl
    exact hNe hs

instance
    (v : Value) :
    Decidable (FilledList v) :=
  decidable_of_iff _ filledList_iff.symm

instance
    (v : Value) :
    Decidable (FilledMap v) :=
  decidable_of_iff _ filledMap_iff.symm

instance
    (v : Value) :
    Decidable (∃ s, s ≠ waysTheme ∧ v = .str s) :=
  decidable_of_iff _ givenTheme_iff.symm

instance
    (live : Value) :
    Decidable (PlainShape live) :=
  decidable_of_iff
    (IsMap live ∧
      (∀ v ∈ live.get? "hooks", IsMap v) ∧
      (∀ event ∈ (hooksObject live).keys,
        ∀ v ∈ (hooksObject live).get? event, FilledList v) ∧
      (∀ v ∈ live.get? "permissions", FilledMap v) ∧
      (∀ v ∈ (theirPermissions live).get? "allow",
        FilledList v) ∧
      (∀ v ∈ (theirPermissions live).get? "deny",
        FilledList v) ∧
      ∀ v ∈ live.get? "theme",
        ∃ s, s ≠ waysTheme ∧ v = .str s)
    (by
      rw [forall_get?_iff]
      constructor
      · rintro ⟨hMap, hHooks, hEvents, hPermissions, hAllow,
          hDeny, hTheme⟩
        exact ⟨hMap, hHooks, hEvents, hPermissions, hAllow,
          hDeny, hTheme⟩
      · rintro ⟨hMap, hHooks, hEvents, hPermissions, hAllow,
          hDeny, hTheme⟩
        exact ⟨hMap, hHooks, hEvents, hPermissions, hAllow,
          hDeny, hTheme⟩)

instance
    (live desired : Value) :
    Decidable (UsersOwn live desired) :=
  decidable_of_iff
    (∀ event ∈ (hooksObject live).keys,
      ∀ e ∈ entriesOf (hooksObject live) event,
        entryIsOurs e = false ∧
          e ∉ entriesOf (fieldsOf desired) event ∧
          e ∉ (entriesOf (fieldsOf desired) event).map
            quoteEntryCommands)
    forall_entriesOf_iff

/- A list that is there is its entries as a field. -/
theorem listField_of_filled
    {m : KeyMap String Value}
    {key : String}
    (hFilled : ∀ v ∈ m.get? key, FilledList v) :
    listField (((m.get? key).bind Value.asArray).getD []) =
      m.get? key := by
  cases hField : m.get? key with
  | none => rfl
  | some v =>
      rcases hFilled v hField with ⟨items, hItems, rfl⟩
      simp [listField, hItems]

theorem mapField_of_filled
    {v : Value}
    {key : String}
    (hFilled : ∀ w ∈ v.get? key, FilledMap w) :
    mapField
        (((v.get? key).bind Value.asObject).getD
          KeyMap.empty) =
      v.get? key := by
  cases hField : v.get? key with
  | none => rfl
  | some w =>
      rcases hFilled w hField with ⟨m, hm, rfl⟩
      simp [mapField, hm]

/- The theme of such a document is one to give back. -/
theorem PlainShape.notOurs_themeOf
    {live : Value}
    (hLive : PlainShape live) :
    notOurs (themeOf live) = themeOf live := by
  unfold themeOf
  cases hField : live.get? "theme" with
  | none => rfl
  | some v =>
      rcases hLive.theme v hField with ⟨s, hs, rfl⟩
      simp [notOurs, hs]

theorem PlainShape.theme_eq
    {live : Value}
    (hLive : PlainShape live) :
    live.get? "theme" = (themeOf live).map Value.str := by
  unfold themeOf
  cases hField : live.get? "theme" with
  | none => rfl
  | some v =>
      rcases hLive.theme v hField with ⟨s, -, rfl⟩
      rfl

theorem PlainShape.themeOf_ne
    {live : Value}
    (hLive : PlainShape live) :
    themeOf live ≠ some waysTheme := by
  intro hTheme
  have hGiven := hLive.notOurs_themeOf
  rw [hTheme] at hGiven
  simp [notOurs] at hGiven

end Settings

------------------------------------------------------------
-- What Was Added
------------------------------------------------------------

namespace Settings

open Json

/-
  A list is theirs with ours after it, and the base names
  what is after and nothing before.
-/
def AddedTo
    (theirs items : List Value)
    (base : List String) : Prop :=
  ∃ added,
    items = theirs ++ added ∧
      (∀ v ∈ added, listedStr base v = true) ∧
      ∀ v ∈ theirs, listedStr base v = false

theorem addedTo_self
    (theirs : List Value) :
    AddedTo theirs theirs [] := by
  refine ⟨[], by simp, by simp, ?_⟩
  intro v _
  rw [← Bool.not_eq_true, listedStr_eq_true]
  rintro ⟨s, hMem, -⟩
  cases hMem

/- A merge adds to theirs, and records what it added. -/
theorem addedTo_mergeStrings
    {theirs items : List Value}
    {base : List String}
    (ours : List String)
    (hAdded : AddedTo theirs items base) :
    AddedTo theirs (mergeStrings items ours base)
      (recordStrings items ours base) := by
  rcases hAdded with ⟨old, rfl, hOld, hTheirs⟩
  rcases mergeStrings_eq_append (theirs ++ old) ours base
    with ⟨new, hEq, hNew⟩
  have hKept :
      theirs.filter
          (fun v =>
            !listedStr
              (base.filter (fun p => decide (p ∉ ours))) v) =
        theirs := by
    apply List.filter_eq_self.mpr
    intro v hMem
    have hOut := hTheirs v hMem
    rw [← Bool.not_eq_true, listedStr_eq_true] at hOut
    rw [Bool.not_eq_true', ← Bool.not_eq_true,
      listedStr_eq_true]
    rintro ⟨s, hs, rfl⟩
    exact hOut ⟨s, (List.mem_filter.mp hs).1, rfl⟩
  refine ⟨old.filter
    (fun v =>
      !listedStr
        (base.filter (fun p => decide (p ∉ ours))) v) ++ new,
    ?_, ?_, ?_⟩
  · rw [hEq, List.filter_append, hKept, List.append_assoc]
  · intro v hMem
    rcases List.mem_append.mp hMem with hLeft | hRight
    · rcases List.mem_filter.mp hLeft with ⟨hIn, hStays⟩
      rcases listedStr_eq_true.mp (hOld v hIn) with
        ⟨s, hs, rfl⟩
      have hOurs : s ∈ ours := by
        by_contra hOut
        simp [hs, hOut] at hStays
      exact listedStr_eq_true.mpr
        ⟨s, mem_recordStrings.mpr ⟨hOurs, Or.inl hs⟩, rfl⟩
    · exact hNew v hRight
  · intro v hMem
    have hOut := hTheirs v hMem
    rw [← Bool.not_eq_true, listedStr_eq_true] at hOut ⊢
    rintro ⟨s, hs, rfl⟩
    rcases mem_recordStrings.mp hs with ⟨-, hBase | hGone⟩
    · exact hOut ⟨s, hBase, rfl⟩
    · exact hGone (List.mem_append_left _ hMem)

/- A withdrawal leaves theirs. -/
theorem mergeStrings_of_addedTo
    {theirs items : List Value}
    {base : List String}
    (hAdded : AddedTo theirs items base) :
    mergeStrings items [] base = theirs := by
  rcases hAdded with ⟨added, rfl, hAdded, hTheirs⟩
  have hAll : base.filter (fun p => decide (p ∉ [])) = base :=
    List.filter_eq_self.mpr (by simp)
  rw [mergeStrings, hAll]
  simp only [List.map_nil, pushMissing, List.foldl_nil,
    List.filter_append]
  have hStay :
      theirs.filter (fun v => !listedStr base v) = theirs := by
    apply List.filter_eq_self.mpr
    intro v hMem
    simp [hTheirs v hMem]
  have hGo :
      added.filter (fun v => !listedStr base v) = [] := by
    apply List.filter_eq_nil_iff.mpr
    intro v hMem
    simp [hAdded v hMem]
  rw [hStay, hGo, List.append_nil]

end Settings

------------------------------------------------------------
-- The Installed State
------------------------------------------------------------

namespace Settings

open Json

/- The theme is the user's own, or held to give back. -/
def ThemeHeld
    (live : Value)
    (m : Merged) : Prop :=
  (m.base.theme = none ∧
      m.settings.get? "theme" = live.get? "theme") ∨
    (m.base.theme = some waysTheme ∧
      themeOf m.settings = some waysTheme ∧
      m.base.priorTheme = themeOf live)

/- The document is the user's with ours added to it. -/
structure Installed
    (live : Value)
    (m : Merged) : Prop where
  fields :
    ∀ key, key ≠ "hooks" → key ≠ "permissions" →
      key ≠ "theme" →
      m.settings.get? key = live.get? key
  entries :
    ∀ event,
      entriesOf (hooksObject m.settings) event =
        entriesOf (hooksObject live) event ++
          entriesOf m.base.hooks event
  users :
    ∀ event, ∀ e ∈ entriesOf (hooksObject live) event,
      e ∉ entriesOf m.base.hooks event
  permissionFields :
    ∀ key, key ≠ "allow" → key ≠ "deny" →
      (theirPermissions m.settings).get? key =
        (theirPermissions live).get? key
  allow :
    AddedTo (listOf (theirPermissions live) "allow")
      (listOf (theirPermissions m.settings) "allow")
      m.base.perms
  deny :
    AddedTo (listOf (theirPermissions live) "deny")
      (listOf (theirPermissions m.settings) "deny")
      m.base.deny
  theme : ThemeHeld live m

/- Before the first merge nothing is added. -/
theorem installed_start
    (live : Value) :
    Installed live
      { settings := live, base := Owned.default } := by
  constructor
  · intros
    rfl
  · intro event
    simp [Owned.default]
  · intro event e _
    simp [Owned.default]
  · intros
    rfl
  · exact addedTo_self _
  · exact addedTo_self _
  · exact Or.inl ⟨rfl, rfl⟩

/-
  The merge of an event keeps the user's entries and swaps
  ours for the shipped ones.
-/
theorem mergeEvent_of_users
    {users base ours : List Value}
    (hBase : ∀ e ∈ users, e ∉ base)
    (hUsers :
      ∀ e ∈ users,
        entryIsOurs e = false ∧ e ∉ ours ∧
          e ∉ ours.map quoteEntryCommands) :
    mergeEvent (users ++ base) base ours false =
      users ++ ours.map quoteEntryCommands := by
  simp only [mergeEvent, Bool.false_eq_true, if_false,
    List.filter_append]
  have hStay :
      users.filter
          (fun e =>
            decide (e ∉ base) && decide (e ∉ ours) &&
              decide (e ∉ ours.map quoteEntryCommands) &&
              !entryIsOurs e) =
        users := by
    apply List.filter_eq_self.mpr
    intro e hMem
    rcases hUsers e hMem with ⟨hShape, hRaw, hQuoted⟩
    simp only [hBase e hMem, hRaw, hQuoted, hShape,
      not_false_eq_true, decide_true, Bool.not_false,
      Bool.and_self]
  have hGo :
      base.filter
          (fun e =>
            decide (e ∉ base) && decide (e ∉ ours) &&
              decide (e ∉ ours.map quoteEntryCommands) &&
              !entryIsOurs e) =
        [] := by
    apply List.filter_eq_nil_iff.mpr
    intro e hMem
    simp [hMem]
  rw [hStay, hGo, List.append_nil]

/- A withdrawal keeps the user's entries alone. -/
theorem mergeEvent_withdrawing_of_users
    {users base ours : List Value}
    (hUsers :
      ∀ e ∈ users,
        entryIsOurs e = false ∧ e ∉ ours ∧
          e ∉ ours.map quoteEntryCommands) :
    mergeEvent (users ++ ours.map quoteEntryCommands) base
        ours true =
      users := by
  simp only [mergeEvent, if_true, List.filter_append]
  have hStay :
      users.filter
          (fun e =>
            decide (e ∉ ours) &&
              decide (e ∉ ours.map quoteEntryCommands)) =
        users := by
    apply List.filter_eq_self.mpr
    intro e hMem
    rcases hUsers e hMem with ⟨-, hRaw, hQuoted⟩
    simp only [hRaw, hQuoted, not_false_eq_true, decide_true,
      Bool.and_self]
  have hGo :
      (ours.map quoteEntryCommands).filter
          (fun e =>
            decide (e ∉ ours) &&
              decide (e ∉ ours.map quoteEntryCommands)) =
        [] := by
    apply List.filter_eq_nil_iff.mpr
    intro e hMem
    simp [hMem]
  rw [hStay, hGo, List.append_nil]

end Settings

namespace Settings

open Json

variable {live : Value} {m : Merged}

theorem themeOf_of_get?_eq
    {v w : Value}
    (hSame : v.get? "theme" = w.get? "theme") :
    themeOf v = themeOf w := by
  rw [themeOf, hSame, ← themeOf]

/- A theme that is wanted is claimed or stays claimed. -/
theorem themed_claimed
    (hLive : PlainShape live)
    (hTheme : ThemeHeld live m) :
    (themed m.settings m.base true).1.get? "theme" =
        some (.str waysTheme) ∧
      (themed m.settings m.base true).2 =
        (some waysTheme, themeOf live) := by
  rcases hTheme with ⟨hBase, hSame⟩ | ⟨hBase, hOurs, hPrior⟩
  · have hTheirs := themeOf_of_get?_eq hSame
    simp [themed, mergeTheme, hBase, hTheirs,
      hLive.notOurs_themeOf]
  · simp [themed, mergeTheme, changedSince, hBase, hOurs,
      hPrior]

/- A theme that is not wanted is given back. -/
theorem themed_released
    (hLive : PlainShape live)
    (hTheme : ThemeHeld live m) :
    (themed m.settings m.base false).1.get? "theme" =
        live.get? "theme" ∧
      (themed m.settings m.base false).2 = (none, none) := by
  rcases hTheme with ⟨hBase, hSame⟩ | ⟨hBase, hOurs, hPrior⟩
  · have hTheirs : themeOf m.settings ≠ some waysTheme := by
      rw [themeOf_of_get?_eq hSame]
      exact hLive.themeOf_ne
    simp [themed, mergeTheme, hBase, hTheirs, get?_fieldsOf,
      hSame]
  · have hGiven := hLive.notOurs_themeOf
    rw [hLive.theme_eq]
    cases hLiveTheme : themeOf live with
    | none =>
        rw [hLiveTheme] at hGiven hPrior
        simp [themed, mergeTheme, changedSince, hBase, hOurs,
          hPrior, hGiven]
    | some s =>
        rw [hLiveTheme] at hGiven hPrior
        simp [themed, mergeTheme, changedSince, hBase, hOurs,
          hPrior, hGiven]

theorem themeHeld_merge
    (hLive : PlainShape live)
    (hTheme : ThemeHeld live m)
    (desired : Value)
    (denySecrets wantTheme : Bool) :
    ThemeHeld live
      (merge m.settings desired m.base denySecrets
        wantTheme) := by
  unfold ThemeHeld merge
  rw [mergeImpl_base_theme, mergeImpl_base_priorTheme,
    themeOf, mergeImpl_theme]
  cases wantTheme with
  | true =>
      rcases themed_claimed hLive hTheme with
        ⟨hField, hRecord⟩
      refine Or.inr ⟨?_, ?_, ?_⟩
      · exact congrArg Prod.fst hRecord
      · simp [hField]
      · exact congrArg Prod.snd hRecord
  | false =>
      rcases themed_released hLive hTheme with
        ⟨hField, hRecord⟩
      exact Or.inl ⟨congrArg Prod.fst hRecord, hField⟩

/- A merge takes an installed state to another. -/
theorem installed_merge
    {c : Call}
    (hLive : PlainShape live)
    (hUsers : UsersOwn live c.desired)
    (hInstalled : Installed live m) :
    Installed live
      (merge m.settings c.desired m.base c.denySecrets
        c.wantTheme) := by
  have hTheme :=
    themeHeld_merge hLive hInstalled.theme c.desired
      c.denySecrets c.wantTheme
  unfold merge at hTheme ⊢
  constructor
  · intro key hHooks hPermissions hKey
    rw [mergeImpl_other _ _ _ _ _ _ hHooks hPermissions hKey]
    exact hInstalled.fields key hHooks hPermissions hKey
  · intro event
    rw [hooksObject_mergeImpl, entriesOf_mergeHooks,
      mergeImpl_base_hooks, entriesOf_baseHooks,
      hInstalled.entries]
    exact mergeEvent_of_users (hInstalled.users event)
      (hUsers event)
  · intro event e hMem
    rw [mergeImpl_base_hooks, entriesOf_baseHooks]
    exact (hUsers event e hMem).2.2
  · intro key hAllow hDeny
    rw [theirPermissions_mergeImpl,
      mergePermissions_other _ _ _ _ hAllow hDeny]
    exact hInstalled.permissionFields key hAllow hDeny
  · rw [theirPermissions_mergeImpl,
      listOf_mergePermissions_allow, mergeImpl_base_perms]
    exact addedTo_mergeStrings _ hInstalled.allow
  · rw [theirPermissions_mergeImpl,
      listOf_mergePermissions_deny, mergeImpl_base_deny]
    exact addedTo_mergeStrings _ hInstalled.deny
  · exact hTheme

/- Every run of merges leads to an installed state. -/
theorem installed_run
    {calls : List Call}
    (hLive : PlainShape live)
    (hUsers : ∀ c ∈ calls, UsersOwn live c.desired) :
    Installed live (install live calls) := by
  apply StepMachine.invariant_final (Installed live)
    (fun _ c => UsersOwn live c.desired)
  · intro s c hInstalled hOwn
    exact installed_merge hLive hOwn hInstalled
  · intro t hMem
    apply hUsers
    exact StepMachine.input_mem_of_mem_trace hMem
  · exact installed_start live

end Settings

------------------------------------------------------------
-- Withdrawal
------------------------------------------------------------

namespace Settings

open Json

variable {live : Value} {m : Merged}

/- The user's hooks are put back as they were. -/
theorem withdraw_hooks
    {shipped : Value}
    (hLive : PlainShape live)
    (hHooks : live.get? "hooks" ≠ some (.obj KeyMap.empty))
    (hUsers : UsersOwn live shipped)
    (hInstalled : Installed live m)
    (hBase :
      m.base.hooks = baseHooks (fieldsOf shipped) false) :
    (withdraw m.settings shipped m.base).settings.get?
        "hooks" =
      live.get? "hooks" := by
  have hBack :
      mergeHooks (hooksObject m.settings) (fieldsOf shipped)
          m.base.hooks true =
        hooksObject live := by
    apply KeyMap.ext_get?
    intro event
    rw [mergeHooks_get?, hInstalled.entries, hBase,
      entriesOf_baseHooks,
      mergeEvent_withdrawing_of_users (hUsers event)]
    exact listField_of_filled (hLive.events event)
  rw [withdraw, mergeImpl_hooks, hBack]
  apply mapField_of_filled
  intro v hField
  rcases hLive.hooks v hField with ⟨hooks, rfl⟩
  refine ⟨hooks, ?_, rfl⟩
  rw [← Bool.not_eq_true]
  intro hEmpty
  apply hHooks
  rw [hField, KeyMap.eq_empty_of_isEmpty hEmpty]

/- So are the permissions. -/
theorem withdraw_permissions
    (shipped : Value)
    (hLive : PlainShape live)
    (hInstalled : Installed live m) :
    (withdraw m.settings shipped m.base).settings.get?
        "permissions" =
      live.get? "permissions" := by
  have hBack :
      mergePermissions (theirPermissions m.settings) m.base
          false true =
        theirPermissions live := by
    apply KeyMap.ext_get?
    intro key
    by_cases hKeyAllow : key = "allow"
    · subst hKeyAllow
      rw [mergePermissions_allow_withdrawing,
        mergeStrings_of_addedTo hInstalled.allow]
      exact listField_of_filled hLive.allow
    · by_cases hKeyDeny : key = "deny"
      · subst hKeyDeny
        rw [mergePermissions_deny]
        simp only [oursDeny, Bool.false_and,
          Bool.false_eq_true, if_false]
        rw [mergeStrings_of_addedTo hInstalled.deny]
        exact listField_of_filled hLive.deny
      · rw [mergePermissions_other _ _ _ _ hKeyAllow hKeyDeny]
        exact hInstalled.permissionFields key hKeyAllow
          hKeyDeny
  rw [withdraw, mergeImpl_permissions]
  simp only [if_true]
  rw [hBack, theirPermissions, permissionsObject,
    get?_fieldsOf]
  exact mapField_of_filled hLive.permissions

theorem withdraw_base
    (shipped : Value)
    (hLive : PlainShape live)
    (hTheme : ThemeHeld live m) :
    (withdraw m.settings shipped m.base).base =
      Owned.default := by
  have hRecord := (themed_released hLive hTheme).2
  have hClaim :
      (withdraw m.settings shipped m.base).base.theme =
        none := by
    rw [withdraw, mergeImpl_base_theme]
    exact congrArg Prod.fst hRecord
  have hPrior :
      (withdraw m.settings shipped m.base).base.priorTheme =
        none := by
    rw [withdraw, mergeImpl_base_priorTheme]
    exact congrArg Prod.snd hRecord
  have hRest :
      (withdraw m.settings shipped m.base).base =
        { Owned.default with
          theme :=
            (withdraw m.settings shipped m.base).base.theme
          priorTheme :=
            (withdraw m.settings shipped
              m.base).base.priorTheme } := rfl
  rw [hRest, hClaim, hPrior]
  rfl

/-
  After any run of merges, withdrawing what the last one
  shipped brings the user's document back, with the strings
  the user had before, even those that are shipped.
-/
theorem withdraw_restores
    (live : Value)
    (calls : List Call)
    (last : Call)
    (hLive : PlainShape live)
    (hHooks : live.get? "hooks" ≠ some (.obj KeyMap.empty))
    (hUsers :
      ∀ c ∈ calls ++ [last], UsersOwn live c.desired) :
    withdraw (install live (calls ++ [last])).settings
        last.desired
        (install live (calls ++ [last])).base =
      { settings := live, base := Owned.default } := by
  have hInstalled := installed_run hLive hUsers
  have hBase :
      (install live (calls ++ [last])).base.hooks =
        baseHooks (fieldsOf last.desired) false := by
    rw [install, StepMachine.final_append]
    rfl
  generalize install live (calls ++ [last]) = m
    at hInstalled hBase
  have hSettings :
      (withdraw m.settings last.desired m.base).settings =
        live := by
    have hMap :
        IsMap
          (withdraw m.settings last.desired
            m.base).settings :=
      ⟨_, rfl⟩
    apply eq_of_get?_eq hMap hLive.isMap
    intro key
    by_cases hKeyHooks : key = "hooks"
    · subst hKeyHooks
      exact withdraw_hooks hLive hHooks
        (hUsers last (by simp)) hInstalled hBase
    · by_cases hKeyPermissions : key = "permissions"
      · subst hKeyPermissions
        exact withdraw_permissions _ hLive hInstalled
      · by_cases hKeyTheme : key = "theme"
        · subst hKeyTheme
          rw [withdraw, mergeImpl_theme]
          exact (themed_released hLive hInstalled.theme).1
        · rw [withdraw,
            mergeImpl_other _ _ _ _ _ _ hKeyHooks
              hKeyPermissions hKeyTheme]
          exact hInstalled.fields key hKeyHooks
            hKeyPermissions hKeyTheme
  rw [← hSettings, ← withdraw_base last.desired hLive
    hInstalled.theme]

/- A document with a shipped string in each list. -/
def ownSettings : Value :=
  .obj
    (KeyMap.ofList
      [("hooks",
          .obj
            (KeyMap.ofList
              [("SessionStart",
                .array [runs "notify-send hello"])])),
        ("permissions",
          .obj
            (KeyMap.ofList
              [("allow", .array [.str "Bash(ways:*)"]),
                ("deny", .array [.str "Read(~/.ssh/**)"])])),
        ("theme", .str "dark")])

/- What an earlier version shipped. -/
def olderHooks : Value :=
  .obj
    (KeyMap.ofList
      [("SessionStart",
          .array [runs "${HOME}/.claude/hooks/old.sh"]),
        ("Stop", .array [runs "${HOME}/.claude/bin/ways stop"])])

theorem ownSettings_restored :
    PlainShape ownSettings ∧
      withdraw
          (install ownSettings
            ([⟨olderHooks, true, true⟩,
                ⟨olderHooks, false, false⟩] ++
              [⟨shippedHooks, true, true⟩])).settings
          shippedHooks
          (install ownSettings
            ([⟨olderHooks, true, true⟩,
                ⟨olderHooks, false, false⟩] ++
              [⟨shippedHooks, true, true⟩])).base =
        { settings := ownSettings, base := Owned.default } := by
  have hLive : PlainShape ownSettings := by
    decide
  refine ⟨hLive,
    withdraw_restores ownSettings _
      ⟨shippedHooks, true, true⟩ hLive ?_ ?_⟩
  · decide
  · decide

/- The same document with its hooks left empty. -/
def emptyHooksSettings : Value :=
  .obj
    (KeyMap.ofList
      [("hooks", .obj KeyMap.empty),
        ("permissions",
          .obj
            (KeyMap.ofList
              [("allow", .array [.str "Bash(ls:*)"]),
                ("deny", .array [.str "Read(./.env)"])])),
        ("theme", .str "dark")])

theorem emptyHooks_not_restored :
    PlainShape emptyHooksSettings ∧ ShipsOurs shippedHooks ∧
      UsersOwn emptyHooksSettings shippedHooks ∧
      (withdraw
          (install emptyHooksSettings
            [⟨shippedHooks, true, true⟩]).settings
          shippedHooks
          (install emptyHooksSettings
            [⟨shippedHooks, true, true⟩]).base).settings ≠
        emptyHooksSettings := by
  refine ⟨?_, ?_, ?_, ?_⟩
  · decide
  · decide
  · decide
  · decide

end Settings
