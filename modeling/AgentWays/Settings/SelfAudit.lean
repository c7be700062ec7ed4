import AgentWays.Settings.AuditSpec

/-
  What the self-audit is worth: it never stops a well-formed
  apply, and it lets one kind of loss through.

  Key definitions include:
    * `Settings.NothingLost`

  Main declarations:
    * `Settings.apply_never_reverts`
    * `Settings.audit_sound_iff`
-/

------------------------------------------------------------
-- Applies Are Kept
------------------------------------------------------------

namespace Settings

open Json

/-
  The two views of a well-formed document are equal over any
  base, so no apply on such files is undone.
-/
theorem apply_never_reverts
    (live desired : Value)
    (base : Owned)
    (denySecrets wantTheme : Bool)
    (hLive : WellFormed live)
    (hShips : ShipsOurs desired) :
    userBefore live base
        (merge live desired base denySecrets wantTheme) =
      userAfter live base
        (merge live desired base denySecrets wantTheme) ∧
    ∀ (source : Value) (files : Files),
      readJsonOrEmpty files.settings = live →
      (source.get? "hooks").getD (.obj KeyMap.empty) =
        desired →
      (applyToFiles source files denySecrets wantTheme).2 ≠
        .reverted := by
  constructor
  · exact views_eq_of_shaped hShips hLive.shaped
  · intro source files hRead hDesired
    have hPasses :
        auditPasses live (baseFor live files.base)
            (merge live desired (baseFor live files.base)
              denySecrets wantTheme) =
          true :=
      (auditPasses_iff_shaped hShips).mpr hLive.shaped
    simp only [applyToFiles, hRead, hDesired, hPasses,
      if_true]
    split <;> simp

/- One hook entry that runs a command. -/
def runs
    (command : String) : Value :=
  .obj
    (KeyMap.ofList
      [("hooks",
        .array
          [.obj
            (KeyMap.ofList [("command", .str command)])])])

/- The entry agent-ways ships for a session's start. -/
def checkSetup : Value :=
  runs "${HOME}/.claude/hooks/ways/check-setup.sh"

/- The hooks object with that entry alone. -/
def shippedHooks : Value :=
  .obj
    (KeyMap.ofList [("SessionStart", .array [checkSetup])])

/-
  A settings file with a hook of the user's, an old hook of
  ours and a permission the user had first.
-/
def driftedSettings : Value :=
  .obj
    (KeyMap.ofList
      [("model", .str "opus"),
        ("hooks",
          .obj
            (KeyMap.ofList
              [("SessionStart",
                .array
                  [runs "notify-send hello",
                    runs "${HOME}/.claude/hooks/old.sh"])])),
        ("permissions",
          .obj
            (KeyMap.ofList
              [("allow",
                .array
                  [.str "Bash(ways:*)",
                    .str "Bash(gone:*)"])])),
        ("theme", .str "dark")])

/- A base that lost its hooks and kept a dropped string. -/
def staleBase : Owned :=
  { Owned.default with
    perms := ["Bash(gone:*)", "Bash(attend:*)"] }

theorem driftedSettings_audited :
    WellFormed driftedSettings ∧ ShipsOurs shippedHooks ∧
      userBefore driftedSettings staleBase
          (merge driftedSettings shippedHooks staleBase true
            true) =
        userAfter driftedSettings staleBase
          (merge driftedSettings shippedHooks staleBase true
            true) := by
  have hLive : WellFormed driftedSettings := by
    decide
  have hShips : ShipsOurs shippedHooks := by
    decide
  exact ⟨hLive, hShips,
    (apply_never_reverts _ _ staleBase true true hLive
      hShips).1⟩

end Settings

------------------------------------------------------------
-- What Passes
------------------------------------------------------------

namespace Settings

open Json

/-
  Nothing of the user's was lost: fields outside the shared
  ones keep their values, an event that is no list stays as
  it was, and the entries and strings that are not ours are
  still there in their order.
-/
structure NothingLost
    (live desired : Value)
    (base : Owned)
    (denySecrets : Bool)
    (settings : Value) : Prop where
  fields :
    ∀ key, key ≠ "hooks" → key ≠ "permissions" →
      key ≠ "theme" → settings.get? key = live.get? key
  permissionFields :
    ∀ key, key ≠ "allow" → key ≠ "deny" →
      (theirPermissions settings).get? key =
        (theirPermissions live).get? key
  hookValues :
    ∀ event, ∀ v ∈ (hooksObject live).get? event,
      ¬ IsList v → (hooksObject settings).get? event = some v
  hookEntries :
    ∀ event,
      ((entriesOf (hooksObject live) event).filter
          (fun e =>
            decide (e ∉ entriesOf base.hooks event) &&
              decide
                (e ∉ entriesOf (fieldsOf desired) event) &&
              decide
                (e ∉ (entriesOf (fieldsOf desired) event).map
                  quoteEntryCommands) &&
              !entryIsOurs e)).Sublist
        (entriesOf (hooksObject settings) event)
  allow :
    ((listOf (theirPermissions live) "allow").filter
        (fun v =>
          !listedStr
            (base.perms.filter
              (fun p => decide (p ∉ waysPerms)))
            v)).Sublist
      (listOf (theirPermissions settings) "allow")
  deny :
    ((listOf (theirPermissions live) "deny").filter
        (fun v =>
          !listedStr
            (base.deny.filter
              (fun p =>
                decide (p ∉ oursDeny denySecrets false)))
            v)).Sublist
      (listOf (theirPermissions settings) "deny")

/-
  A merge loses nothing of a document whose hook events are
  all lists.
-/
theorem nothingLost_of_hookLists
    {live : Value}
    (desired : Value)
    (base : Owned)
    (denySecrets wantTheme : Bool)
    (hLists : HookLists live) :
    NothingLost live desired base denySecrets
      (merge live desired base denySecrets
        wantTheme).settings := by
  unfold merge
  constructor
  · intro key hHooks hPermissions hTheme
    exact mergeImpl_other _ _ _ _ _ _ hHooks hPermissions
      hTheme
  · intro key hAllow hDeny
    rw [theirPermissions_mergeImpl]
    exact mergePermissions_other _ _ _ _ hAllow hDeny
  · intro event v hGet hList
    exact absurd (hLists event v hGet) hList
  · intro event
    rw [hooksObject_mergeImpl, entriesOf_mergeHooks]
    exact List.sublist_append_left _ _
  · rw [theirPermissions_mergeImpl,
      listOf_mergePermissions_allow]
    exact sublist_mergeStrings _ _ _
  · rw [theirPermissions_mergeImpl,
      listOf_mergePermissions_deny]
    exact sublist_mergeStrings _ _ _

/- An event that is no list does not come through a merge. -/
theorem hookLists_of_nothingLost
    {live desired : Value}
    {base : Owned}
    {denySecrets wantTheme : Bool}
    (hKept :
      NothingLost live desired base denySecrets
        (merge live desired base denySecrets
          wantTheme).settings) :
    HookLists live := by
  intro event v hGet
  by_contra hList
  have hMerged := hKept.hookValues event v hGet hList
  rw [merge, hooksObject_mergeImpl, mergeHooks_get?]
    at hMerged
  exact hList (isList_of_listField hMerged)

/-
  A passed audit means nothing was lost just for documents
  whose hook events are all lists, and for those of a shape
  it never passes.
-/
theorem audit_sound_iff
    (live desired : Value)
    (base : Owned)
    (denySecrets wantTheme : Bool)
    (hShips : ShipsOurs desired) :
    (auditPasses live base
          (merge live desired base denySecrets wantTheme) =
          true →
        NothingLost live desired base denySecrets
          (merge live desired base denySecrets
            wantTheme).settings) ↔
      HookLists live ∨ ¬ Shaped live := by
  constructor
  · intro hSound
    by_cases hShaped : Shaped live
    · apply Or.inl
      apply hookLists_of_nothingLost
      apply hSound
      exact (auditPasses_iff_shaped hShips).mpr hShaped
    · exact Or.inr hShaped
  · rintro (hLists | hShape) hPasses
    · exact nothingLost_of_hookLists _ _ _ _ hLists
    · exact absurd
        ((auditPasses_iff_shaped hShips).mp hPasses) hShape

theorem driftedSettings_sound :
    ShipsOurs shippedHooks ∧ HookLists driftedSettings ∧
      (auditPasses driftedSettings staleBase
          (merge driftedSettings shippedHooks staleBase true
            true) =
          true →
        NothingLost driftedSettings shippedHooks staleBase
          true
          (merge driftedSettings shippedHooks staleBase true
            true).settings) := by
  have hShips : ShipsOurs shippedHooks := by
    decide
  have hLists : HookLists driftedSettings := by
    decide
  exact ⟨hShips, hLists,
    (audit_sound_iff _ _ staleBase true true hShips).mpr
      (Or.inl hLists)⟩

/- A hook event that is a text and not a list. -/
def textEventSettings : Value :=
  .obj
    (KeyMap.ofList
      [("hooks",
        .obj
          (KeyMap.ofList [("PreToolUse", .str "lint.sh")]))])

theorem textEvent_passes_and_is_lost :
    ShipsOurs shippedHooks ∧
      auditPasses textEventSettings Owned.default
          (merge textEventSettings shippedHooks
            Owned.default true false) =
        true ∧
      ¬ NothingLost textEventSettings shippedHooks
          Owned.default true
          (merge textEventSettings shippedHooks
            Owned.default true false).settings := by
  refine ⟨by decide, by decide, ?_⟩
  intro hKept
  have hLists := hookLists_of_nothingLost hKept
  have hText :=
    hLists "PreToolUse" (.str "lint.sh") (by decide)
  revert hText
  decide

end Settings
