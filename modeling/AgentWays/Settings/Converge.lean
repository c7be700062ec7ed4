import AgentWays.Settings.SelfAudit

/-
  The merge settles in one step, whatever hooks its base
  records.

  A merge leaves each event as the user's entries followed
  by the shipped ones, each list with every string that is
  wanted, and the theme in a state it would leave alone. So
  a second merge with the same wants changes nothing, and a
  base that records only hooks of ours adds nothing to what
  the shape of an entry already says.

  Key definitions include:
    * `Settings.ThemeSettled`
    * `Settings.RecordsOurs`

  Main declarations:
    * `Settings.merge_idempotent`
    * `Settings.merge_hooks_irrelevant`
    * `Settings.merge_converges`
-/

------------------------------------------------------------
-- A Second Merge Of The Parts
------------------------------------------------------------

namespace Settings

open Json

/- The entries of an event that are not ours in any way. -/
def keptEntries
    (theirs base ours : List Value) : List Value :=
  theirs.filter
    (fun e =>
      decide (e ∉ base) && decide (e ∉ ours) &&
        decide (e ∉ ours.map quoteEntryCommands) &&
        !entryIsOurs e)

theorem mergeEvent_eq
    (theirs base ours : List Value) :
    mergeEvent theirs base ours false =
      keptEntries theirs base ours ++
        ours.map quoteEntryCommands := rfl

theorem mem_keptEntries
    {theirs base ours : List Value}
    {e : Value} :
    e ∈ keptEntries theirs base ours ↔
      e ∈ theirs ∧ e ∉ base ∧ e ∉ ours ∧
        e ∉ ours.map quoteEntryCommands ∧
        entryIsOurs e = false := by
  simp only [keptEntries, List.mem_filter, Bool.and_eq_true,
    decide_eq_true_eq, Bool.not_eq_true', and_assoc]

theorem mergeEvent_mergeEvent
    (theirs base ours : List Value) :
    mergeEvent (mergeEvent theirs base ours false)
        (ours.map quoteEntryCommands) ours false =
      mergeEvent theirs base ours false := by
  have hStay :
      keptEntries (keptEntries theirs base ours)
          (ours.map quoteEntryCommands) ours =
        keptEntries theirs base ours := by
    apply List.filter_eq_self.mpr
    intro e hMem
    rcases mem_keptEntries.mp hMem with
      ⟨-, -, hRaw, hQuoted, hShape⟩
    simp only [hRaw, hQuoted, hShape, not_false_eq_true,
      decide_true, Bool.not_false, Bool.and_self]
  have hGo :
      keptEntries (ours.map quoteEntryCommands)
          (ours.map quoteEntryCommands) ours =
        [] := by
    apply List.filter_eq_nil_iff.mpr
    intro e hMem
    simp [hMem]
  rw [mergeEvent_eq, mergeEvent_eq, keptEntries,
    List.filter_append, ← keptEntries, ← keptEntries, hStay,
    hGo, List.append_nil]

theorem mergeHooks_mergeHooks
    (theirs ours base : KeyMap String Value) :
    mergeHooks (mergeHooks theirs ours base false) ours
        (baseHooks ours false) false =
      mergeHooks theirs ours base false := by
  apply KeyMap.ext_get?
  intro event
  rw [mergeHooks_get?, entriesOf_mergeHooks,
    entriesOf_baseHooks, mergeEvent_mergeEvent,
    mergeHooks_get?]

/- What is recorded is still shipped. -/
theorem filter_recordStrings
    (theirs : List Value)
    (ours base : List String) :
    (recordStrings theirs ours base).filter
        (fun p => decide (p ∉ ours)) =
      [] := by
  apply List.filter_eq_nil_iff.mpr
  intro p hMem
  simp [(mem_recordStrings.mp hMem).1]

theorem mergeStrings_mergeStrings
    (theirs : List Value)
    (ours base : List String) :
    mergeStrings (mergeStrings theirs ours base) ours
        (recordStrings theirs ours base) =
      mergeStrings theirs ours base := by
  have hAll :
      (mergeStrings theirs ours base).filter
          (fun v => !listedStr [] v) =
        mergeStrings theirs ours base := by
    apply List.filter_eq_self.mpr
    intro v _
    rw [Bool.not_eq_true', ← Bool.not_eq_true,
      listedStr_eq_true]
    rintro ⟨s, hMem, -⟩
    cases hMem
  rw [mergeStrings, filter_recordStrings, hAll]
  apply pushMissing_of_subset
  intro v hMem
  rw [mergeStrings, mem_pushMissing]
  exact Or.inr hMem

theorem recordStrings_mergeStrings
    (theirs : List Value)
    (ours base : List String) :
    recordStrings (mergeStrings theirs ours base) ours
        (recordStrings theirs ours base) =
      recordStrings theirs ours base := by
  have hPresent :
      ∀ p ∈ ours,
        Value.str p ∈ mergeStrings theirs ours base := by
    intro p hMem
    rw [mergeStrings, mem_pushMissing]
    exact Or.inr (List.mem_map_of_mem hMem)
  apply List.filter_congr
  intro p hMem
  have hRecorded :
      p ∈ recordStrings theirs ours base ↔
        p ∈ base ∨ Value.str p ∉ theirs := by
    rw [mem_recordStrings]
    simp only [hMem, true_and]
  rw [Bool.eq_iff_iff]
  simp only [Bool.or_eq_true, decide_eq_true_eq,
    mem_filterMap_asStr, hPresent p hMem,
    not_true_eq_false, or_false, hRecorded]

end Settings

------------------------------------------------------------
-- A Settled Theme
------------------------------------------------------------

namespace Settings

open Json

/- A theme that a merge with the same wish leaves alone. -/
def ThemeSettled
    (wanted : Bool)
    (m : Merged) : Prop :=
  match wanted with
  | true =>
      m.base.theme = some waysTheme ∧
        (m.settings.get? "theme" = some (.str waysTheme) ∨
          changedSince (themeOf m.settings) m.base = true)
  | false =>
      m.base.theme = none ∧ m.base.priorTheme = none ∧
        themeOf m.settings ≠ some waysTheme

theorem changedSince_of_eq
    {base base' : Owned}
    {theirs theirs' : Option String}
    (hTheirs : theirs' = theirs)
    (hTheme : base'.theme = base.theme) :
    changedSince theirs' base' = changedSince theirs base := by
  rw [changedSince, hTheirs, hTheme, ← changedSince]

/- A theme set after the claim is not the mod's. -/
theorem ne_of_changedSince
    {base : Owned}
    {theirs : Option String}
    (hOurs : base.theme = some waysTheme)
    (hChanged : changedSince theirs base = true) :
    theirs ≠ some waysTheme := by
  intro hTheirs
  simp [changedSince, hOurs, hTheirs] at hChanged

/- Wanting the theme leaves it claimed, or as it was set. -/
theorem themeSettled_claimed
    {live : Value}
    {base : Owned}
    {m : Merged}
    (hBase :
      base.theme = none ∨ base.theme = some waysTheme)
    (hField :
      m.settings.get? "theme" =
        (themed live base true).1.get? "theme")
    (hClaim : m.base.theme = (themed live base true).2.1) :
    ThemeSettled true m := by
  rcases hBase with hNone | hOurs
  · simp only [themed, mergeTheme, hNone] at hField hClaim
    simp only [KeyMap.get?_insert, if_true] at hField
    exact ⟨hClaim, Or.inl hField⟩
  · by_cases hChanged :
        changedSince (themeOf live) base = true
    · simp only [themed, mergeTheme, hOurs, hChanged, if_true]
        at hField hClaim
      rw [get?_fieldsOf] at hField
      refine ⟨hClaim, Or.inr ?_⟩
      have hTheirs : themeOf m.settings = themeOf live := by
        rw [themeOf, hField, ← themeOf]
      have hSame : m.base.theme = base.theme := by
        rw [hClaim, hOurs]
      rw [changedSince_of_eq hTheirs hSame]
      exact hChanged
    · simp only [themed, mergeTheme, hOurs, hChanged]
        at hField hClaim
      simp at hField hClaim
      exact ⟨hClaim, Or.inl hField⟩

theorem ne_of_notOurs
    {theme : Option String}
    {p : String}
    (hGiven : notOurs theme = some p) :
    p ≠ waysTheme := by
  rcases Option.filter_eq_some_iff.mp hGiven with ⟨-, hNe⟩
  simpa using hNe

/- A theme that is not wanted is never left claimed. -/
theorem themed_false_snd
    (live : Value)
    (base : Owned) :
    (themed live base false).2 = (none, none) := by
  unfold themed mergeTheme
  split
  · contradiction
  · contradiction
  · split
    · rfl
    · split <;> rfl
  · split <;> rfl

/- Not wanting it leaves it unclaimed, and not the mod's. -/
theorem themeSettled_released
    {live : Value}
    {base : Owned}
    {m : Merged}
    (hBase :
      base.theme = none ∨ base.theme = some waysTheme)
    (hField :
      m.settings.get? "theme" =
        (themed live base false).1.get? "theme")
    (hClaim : m.base.theme = (themed live base false).2.1)
    (hPrior :
      m.base.priorTheme = (themed live base false).2.2) :
    ThemeSettled false m := by
  rw [themed_false_snd] at hClaim hPrior
  refine ⟨hClaim, hPrior, ?_⟩
  rw [themeOf, hField]
  rcases hBase with hNone | hOurs
  · by_cases hLive : themeOf live = some waysTheme
    · simp [themed, mergeTheme, hNone, hLive]
    · simp only [themed, mergeTheme, hNone, hLive, if_false,
        get?_fieldsOf]
      exact hLive
  · by_cases hChanged :
        changedSince (themeOf live) base = true
    · simp only [themed, mergeTheme, hOurs, hChanged, if_true,
        get?_fieldsOf]
      exact ne_of_changedSince hOurs hChanged
    · cases hGiven : notOurs base.priorTheme with
      | none =>
          simp [themed, mergeTheme, hOurs, hChanged, hGiven]
      | some p =>
          simp [themed, mergeTheme, hOurs, hChanged, hGiven,
            ne_of_notOurs hGiven]

theorem themeSettled_merge
    (live desired : Value)
    {base : Owned}
    (denySecrets wantTheme : Bool)
    (hBase :
      base.theme = none ∨ base.theme = some waysTheme) :
    ThemeSettled wantTheme
      (merge live desired base denySecrets wantTheme) := by
  have hField :=
    mergeImpl_theme live desired base denySecrets wantTheme
      false
  have hClaim :=
    mergeImpl_base_theme live desired base denySecrets
      wantTheme false
  have hPrior :=
    mergeImpl_base_priorTheme live desired base denySecrets
      wantTheme false
  cases wantTheme with
  | true => exact themeSettled_claimed hBase hField hClaim
  | false =>
      exact themeSettled_released hBase hField hClaim hPrior

/- A settled theme and its record are left as they are. -/
theorem themed_of_settled
    {wanted : Bool}
    {m : Merged}
    (hSettled : ThemeSettled wanted m) :
    (themed m.settings m.base wanted).1.get? "theme" =
        m.settings.get? "theme" ∧
      (themed m.settings m.base wanted).2 =
        (m.base.theme, m.base.priorTheme) := by
  cases wanted with
  | true =>
      rcases hSettled with ⟨hClaim, hOurs | hChanged⟩
      · have hTheirs :
            themeOf m.settings = some waysTheme := by
          simp [themeOf, hOurs]
        simp [themed, mergeTheme, changedSince, hClaim,
          hTheirs, hOurs]
      · simp [themed, mergeTheme, hClaim, hChanged,
          get?_fieldsOf]
  | false =>
      rcases hSettled with ⟨hClaim, hPrior, hTheirs⟩
      simp [themed, mergeTheme, hClaim, hPrior, hTheirs,
        get?_fieldsOf]

end Settings

------------------------------------------------------------
-- One Step Settles
------------------------------------------------------------

namespace Settings

open Json

theorem mergePermissions_mergePermissions
    (perms : KeyMap String Value)
    {base base' : Owned}
    (denySecrets : Bool)
    (hPerms :
      base'.perms =
        recordStrings (listOf perms "allow") waysPerms
          base.perms)
    (hDeny :
      base'.deny =
        recordStrings (listOf perms "deny")
          (oursDeny denySecrets false) base.deny) :
    mergePermissions
        (mergePermissions perms base denySecrets false)
        base' denySecrets false =
      mergePermissions perms base denySecrets false := by
  apply KeyMap.ext_get?
  intro key
  by_cases hKeyAllow : key = "allow"
  · subst hKeyAllow
    rw [mergePermissions_allow,
      listOf_mergePermissions_allow, hPerms]
    simp only [oursPerms, Bool.false_eq_true, if_false]
    rw [mergeStrings_mergeStrings, mergePermissions_allow]
  · by_cases hKeyDeny : key = "deny"
    · subst hKeyDeny
      rw [mergePermissions_deny,
        listOf_mergePermissions_deny, hDeny,
        mergeStrings_mergeStrings, mergePermissions_deny]
    · rw [mergePermissions_other _ _ _ _ hKeyAllow hKeyDeny]

/-
  A state is a fixed point of the merge when each of its
  parts is.
-/
theorem merge_eq_self
    {desired : Value}
    {m : Merged}
    {denySecrets wantTheme : Bool}
    (hMap : IsMap m.settings)
    (hHooks :
      mapField
          (mergeHooks (hooksObject m.settings)
            (fieldsOf desired) m.base.hooks false) =
        m.settings.get? "hooks")
    (hPermissions :
      some
          (.obj
            (mergePermissions (theirPermissions m.settings)
              m.base denySecrets false)) =
        m.settings.get? "permissions")
    (hSettled : ThemeSettled wantTheme m)
    (hBaseHooks :
      baseHooks (fieldsOf desired) false = m.base.hooks)
    (hPerms :
      recordStrings
          (listOf (theirPermissions m.settings) "allow")
          waysPerms m.base.perms =
        m.base.perms)
    (hDeny :
      recordStrings
          (listOf (theirPermissions m.settings) "deny")
          (oursDeny denySecrets false) m.base.deny =
        m.base.deny) :
    merge m.settings desired m.base denySecrets wantTheme =
      m := by
  rcases themed_of_settled hSettled with ⟨hField, hRecord⟩
  unfold merge
  apply Merged.ext
  · have hMerged :
        IsMap
          (mergeImpl m.settings desired m.base denySecrets
            wantTheme false).settings :=
      ⟨_, rfl⟩
    apply eq_of_get?_eq hMerged hMap
    intro key
    by_cases hKeyHooks : key = "hooks"
    · subst hKeyHooks
      rw [mergeImpl_hooks, hHooks]
    · by_cases hKeyPermissions : key = "permissions"
      · subst hKeyPermissions
        rw [mergeImpl_permissions]
        exact hPermissions
      · by_cases hKeyTheme : key = "theme"
        · subst hKeyTheme
          rw [mergeImpl_theme, Bool.not_false, Bool.and_true,
            hField]
        · exact mergeImpl_other _ _ _ _ _ _ hKeyHooks
            hKeyPermissions hKeyTheme
  · apply Owned.ext
    · rw [mergeImpl_base_hooks, hBaseHooks]
    · rw [mergeImpl_base_perms]
      exact hPerms
    · rw [mergeImpl_base_deny, hDeny]
    · rw [mergeImpl_base_theme, Bool.not_false,
        Bool.and_true, hRecord]
    · rw [mergeImpl_base_priorTheme, Bool.not_false,
        Bool.and_true, hRecord]

/- A second merge with the same wants returns the first. -/
theorem merge_idempotent
    (live desired : Value)
    {base : Owned}
    (denySecrets wantTheme : Bool)
    (hBase :
      base.theme = none ∨ base.theme = some waysTheme) :
    merge
        (merge live desired base denySecrets
          wantTheme).settings
        desired
        (merge live desired base denySecrets wantTheme).base
        denySecrets wantTheme =
      merge live desired base denySecrets wantTheme := by
  have hSettled :=
    themeSettled_merge live desired denySecrets wantTheme
      hBase
  have hPerms :=
    mergeImpl_base_perms live desired base denySecrets
      wantTheme false
  have hDeny :=
    mergeImpl_base_deny live desired base denySecrets
      wantTheme false
  apply merge_eq_self ⟨_, rfl⟩
  · rw [merge, hooksObject_mergeImpl, mergeImpl_base_hooks,
      mergeHooks_mergeHooks, mergeImpl_hooks]
  · rw [merge, theirPermissions_mergeImpl,
      mergePermissions_mergePermissions _ _ hPerms hDeny,
      mergeImpl_permissions]
    rfl
  · exact hSettled
  · rfl
  · rw [merge, theirPermissions_mergeImpl, hPerms,
      listOf_mergePermissions_allow]
    exact recordStrings_mergeStrings _ _ _
  · rw [merge, theirPermissions_mergeImpl, hDeny,
      listOf_mergePermissions_deny]
    exact recordStrings_mergeStrings _ _ _

end Settings

------------------------------------------------------------
-- The Hook Record
------------------------------------------------------------

namespace Settings

open Json

/- A record of hooks that are ours or shipped, by event. -/
def RecordsOurs
    (desired : Value)
    (base : Owned) : Prop :=
  ∀ event, ∀ e ∈ entriesOf base.hooks event,
    entryIsOurs e = true ∨
      e ∈ entriesOf (fieldsOf desired) event ∨
      e ∈ (entriesOf (fieldsOf desired) event).map
        quoteEntryCommands

instance
    (desired : Value)
    (base : Owned) :
    Decidable (RecordsOurs desired base) :=
  decidable_of_iff
    (∀ event ∈ base.hooks.keys,
      ∀ e ∈ entriesOf base.hooks event,
        entryIsOurs e = true ∨
          e ∈ entriesOf (fieldsOf desired) event ∨
          e ∈ (entriesOf (fieldsOf desired) event).map
            quoteEntryCommands)
    forall_entriesOf_iff

/- Entries of ours are dropped with or without a record. -/
theorem mergeEvent_of_recordsOurs
    {theirs base ours : List Value}
    (hBase :
      ∀ e ∈ base,
        entryIsOurs e = true ∨ e ∈ ours ∨
          e ∈ ours.map quoteEntryCommands) :
    mergeEvent theirs base ours false =
      mergeEvent theirs [] ours false := by
  rw [mergeEvent_eq, mergeEvent_eq]
  congr 1
  apply List.filter_congr
  intro e _
  by_cases hMem : e ∈ base
  · rcases hBase e hMem with hShape | hRaw | hQuoted
    · simp only [hShape, Bool.not_true, Bool.and_false]
    · simp only [hRaw, not_true_eq_false, decide_false,
        Bool.and_false, Bool.false_and]
    · simp only [hQuoted, not_true_eq_false, decide_false,
        Bool.and_false, Bool.false_and]
  · simp only [hMem, List.not_mem_nil]

theorem mergeHooks_of_recordsOurs
    {desired : Value}
    {base : Owned}
    (theirs : KeyMap String Value)
    (hBase : RecordsOurs desired base) :
    mergeHooks theirs (fieldsOf desired) base.hooks false =
      mergeHooks theirs (fieldsOf desired) KeyMap.empty
        false := by
  apply KeyMap.ext_get?
  intro event
  rw [mergeHooks_get?, mergeHooks_get?, entriesOf_empty,
    mergeEvent_of_recordsOurs (hBase event)]

/- So such a record does not decide what a merge leaves. -/
theorem merge_hooks_irrelevant
    {live desired : Value}
    {base : Owned}
    (denySecrets wantTheme : Bool)
    (hBase : RecordsOurs desired base) :
    merge live desired base denySecrets wantTheme =
      merge live desired
        { base with hooks := KeyMap.empty } denySecrets
        wantTheme := by
  simp only [merge, mergeImpl,
    mergeHooks_of_recordsOurs _ hBase]
  rfl

/-
  An event after a merge: entries that are not ours in any
  way, then the shipped ones quoted.
-/
theorem entriesOf_merge
    (live desired : Value)
    (base : Owned)
    (denySecrets wantTheme : Bool)
    (event : String) :
    entriesOf
        (hooksObject
          (merge live desired base denySecrets
            wantTheme).settings)
        event =
      keptEntries (entriesOf (hooksObject live) event)
          (entriesOf base.hooks event)
          (entriesOf (fieldsOf desired) event) ++
        (entriesOf (fieldsOf desired) event).map
          quoteEntryCommands := by
  rw [merge, hooksObject_mergeImpl, entriesOf_mergeHooks,
    mergeEvent_eq]

/- Each shipped entry is there as often as it is shipped. -/
theorem count_shipped
    (live desired : Value)
    (base : Owned)
    (denySecrets wantTheme : Bool)
    (event : String)
    {e : Value}
    (hMem :
      e ∈ (entriesOf (fieldsOf desired) event).map
        quoteEntryCommands) :
    (entriesOf
          (hooksObject
            (merge live desired base denySecrets
              wantTheme).settings)
          event).count e =
      ((entriesOf (fieldsOf desired) event).map
        quoteEntryCommands).count e := by
  rw [entriesOf_merge, List.count_append]
  have hKept :
      (keptEntries (entriesOf (hooksObject live) event)
          (entriesOf base.hooks event)
          (entriesOf (fieldsOf desired) event)).count e =
        0 := by
    apply List.count_eq_zero_of_not_mem
    intro hIn
    exact (mem_keptEntries.mp hIn).2.2.2.1 hMem
  rw [hKept, Nat.zero_add]

/- No entry of ours is there but the shipped ones. -/
theorem shipped_of_entryIsOurs
    {live desired : Value}
    {base : Owned}
    {denySecrets wantTheme : Bool}
    {event : String}
    {e : Value}
    (hMem :
      e ∈ entriesOf
        (hooksObject
          (merge live desired base denySecrets
            wantTheme).settings)
        event)
    (hShape : entryIsOurs e = true) :
    e ∈ (entriesOf (fieldsOf desired) event).map
      quoteEntryCommands := by
  rw [entriesOf_merge, List.mem_append] at hMem
  rcases hMem with hKept | hShipped
  · rw [(mem_keptEntries.mp hKept).2.2.2.2] at hShape
    cases hShape
  · exact hShipped

end Settings

------------------------------------------------------------
-- Convergence
------------------------------------------------------------

namespace Settings

open Json

/-
  The merge is idempotent. Over bases that differ only in
  their record of our hooks its results are equal; they hold
  each shipped entry, quoted, as often as it is shipped, and
  no other entry of ours.
-/
theorem merge_converges
    (live desired : Value)
    (base : Owned)
    (denySecrets wantTheme : Bool)
    (hTheme :
      base.theme = none ∨ base.theme = some waysTheme) :
    merge
        (merge live desired base denySecrets
          wantTheme).settings
        desired
        (merge live desired base denySecrets wantTheme).base
        denySecrets wantTheme =
      merge live desired base denySecrets wantTheme ∧
    ∀ hooks₁ hooks₂ : KeyMap String Value,
      RecordsOurs desired { base with hooks := hooks₁ } →
      RecordsOurs desired { base with hooks := hooks₂ } →
      merge live desired { base with hooks := hooks₁ }
          denySecrets wantTheme =
        merge live desired { base with hooks := hooks₂ }
          denySecrets wantTheme ∧
      ∀ event,
        (∀ e ∈ (entriesOf (fieldsOf desired) event).map
            quoteEntryCommands,
          (entriesOf
                (hooksObject
                  (merge live desired
                    { base with hooks := hooks₁ }
                    denySecrets wantTheme).settings)
                event).count e =
            ((entriesOf (fieldsOf desired) event).map
              quoteEntryCommands).count e) ∧
        ∀ e ∈ entriesOf
            (hooksObject
              (merge live desired
                { base with hooks := hooks₁ } denySecrets
                wantTheme).settings)
            event,
          entryIsOurs e = true →
            e ∈ (entriesOf (fieldsOf desired) event).map
              quoteEntryCommands := by
  constructor
  · exact merge_idempotent live desired denySecrets wantTheme
      hTheme
  · intro hooks₁ hooks₂ hFirst hSecond
    constructor
    · rw [merge_hooks_irrelevant denySecrets wantTheme hFirst,
        merge_hooks_irrelevant denySecrets wantTheme hSecond]
    · intro event
      constructor
      · intro e hMem
        exact count_shipped _ _ _ _ _ _ hMem
      · intro e hMem hShape
        exact shipped_of_entryIsOurs hMem hShape

/- The record of a base that knows the old hook. -/
def oldRecord : KeyMap String Value :=
  KeyMap.ofList
    [("SessionStart",
      .array [runs "${HOME}/.claude/hooks/old.sh"])]

theorem driftedSettings_converges :
    (Owned.default.theme = none ∨
        Owned.default.theme = some waysTheme) ∧
      merge driftedSettings shippedHooks
          { Owned.default with hooks := oldRecord } true
          true =
        merge driftedSettings shippedHooks
          { Owned.default with hooks := KeyMap.empty } true
          true := by
  have hTheme :
      Owned.default.theme = none ∨
        Owned.default.theme = some waysTheme :=
    Or.inl rfl
  have hOld :
      RecordsOurs shippedHooks
        { Owned.default with hooks := oldRecord } := by
    decide
  have hEmpty :
      RecordsOurs shippedHooks
        { Owned.default with hooks := KeyMap.empty } := by
    decide
  exact ⟨hTheme,
    ((merge_converges driftedSettings shippedHooks
      Owned.default true true hTheme).2 oldRecord
        KeyMap.empty hOld hEmpty).1⟩

/- The same entry shipped twice for one event. -/
def doubledHooks : Value :=
  .obj
    (KeyMap.ofList
      [("SessionStart", .array [checkSetup, checkSetup])])

/-
  A shipped command that starts with a space: quoting leaves
  an empty first token, so its written form is not ours by
  shape.
-/
def spacedEntry : Value :=
  runs " .claude/hooks/x.sh"

def spacedHooks : Value :=
  .obj
    (KeyMap.ofList [("SessionStart", .array [spacedEntry])])

/- The written form of that entry under another event. -/
def strayHooks : KeyMap String Value :=
  KeyMap.ofList
    [("Stop", .array [quoteEntryCommands spacedEntry])]

def straySettings : Value :=
  .obj (KeyMap.ofList [("hooks", .obj strayHooks)])

theorem convergence_needs_distinct_and_by_event :
    (WellFormed driftedSettings ∧ ShipsOurs doubledHooks ∧
      (entriesOf
          (hooksObject
            (merge driftedSettings doubledHooks
              Owned.default true true).settings)
          "SessionStart").count
          (quoteEntryCommands checkSetup) =
        2) ∧
      (WellFormed straySettings ∧ ShipsOurs spacedHooks ∧
        (∀ event, ∀ e ∈ entriesOf strayHooks event,
          e ∈ (entriesOf (fieldsOf spacedHooks)
            "SessionStart").map quoteEntryCommands) ∧
        merge straySettings spacedHooks
            { Owned.default with hooks := strayHooks } true
            true ≠
          merge straySettings spacedHooks Owned.default true
            true) := by
  refine ⟨⟨?_, ?_, ?_⟩, ?_, ?_, ?_, ?_⟩
  · decide
  · decide
  · decide
  · decide
  · decide
  · rw [← forall_entriesOf_iff]
    decide
  · decide

end Settings
