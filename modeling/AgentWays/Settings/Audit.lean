import AgentWays.Settings.Merge

/-
  The self-audit of an apply, and the apply over the files
  it reads and writes.

  The audit compares the user's view of the document before
  and after: everything but the slices a base says are ours.
  A file that does not parse and a write that fails are not
  modelled.

  Key definitions include:
    * `Settings.strippedUserView`
    * `Settings.unionOwned`
    * `Settings.themeMayMove`
    * `Settings.auditPasses`
    * `Settings.baseFor`
    * `Settings.applyToFiles`
-/

------------------------------------------------------------
-- The User's View
------------------------------------------------------------

namespace Settings

open Json

/- The entries that are not ours, by record or by shape. -/
def userEntries
    (entries owned : List Value) : List Value :=
  entries.filter
    (fun e => decide (e ∉ owned) && !entryIsOurs e)

/- The user's entries of each event that has any. -/
def userHooks
    (hooks owned : KeyMap String Value) :
    KeyMap String Value :=
  hooks.filterMap
    (fun event entries =>
      listField
        (userEntries (entries.asArray.getD [])
          (entriesOf owned event)))

/- The hooks stripped to the user's, if they are an object. -/
def stripHooks
    (obj : KeyMap String Value)
    (base : Owned) : KeyMap String Value :=
  match (obj.get? "hooks").bind Value.asObject with
  | some hooks =>
      obj.assign "hooks"
        (mapField (userHooks hooks base.hooks))
  | none => obj

/- One permission list stripped of the strings owned. -/
def stripList
    (perms : KeyMap String Value)
    (key : String)
    (owned : List String) : KeyMap String Value :=
  match (perms.get? key).bind Value.asArray with
  | some entries =>
      perms.assign key
        (listField
          (entries.filter (fun v => !listedStr owned v)))
  | none => perms

/- The permissions stripped, if they are an object. -/
def stripPermissions
    (obj : KeyMap String Value)
    (base : Owned) : KeyMap String Value :=
  match (obj.get? "permissions").bind Value.asObject with
  | some perms =>
      obj.assign "permissions"
        (mapField
          (stripList (stripList perms "allow" base.perms)
            "deny" base.deny))
  | none => obj

/- The theme stripped while it is owned. -/
def stripTheme
    (obj : KeyMap String Value)
    (base : Owned) : KeyMap String Value :=
  if base.theme.isSome then obj.erase "theme" else obj

/- A document but for the slices the base says are ours. -/
def strippedUserView
    (settings : Value)
    (base : Owned) : Value :=
  .obj
    (stripTheme
      (stripPermissions
        (stripHooks (fieldsOf settings) base) base) base)

end Settings

------------------------------------------------------------
-- The Audit
------------------------------------------------------------

namespace Settings

open Json

/- What either of two records owns. -/
def unionOwned
    (a b : Owned) : Owned where
  hooks :=
    a.hooks.updateAll
      (fun old entries =>
        .array
          (pushMissing ((old.bind Value.asArray).getD [])
            (entries.asArray.getD [])))
      b.hooks
  perms := pushMissing a.perms b.perms
  deny := pushMissing a.deny b.deny
  theme := b.theme.or a.theme
  priorTheme := b.priorTheme.or a.priorTheme

/- Whether a merge over these bases may move the theme. -/
def themeMayMove
    (live : Value)
    (bases : List Owned) : Bool :=
  bases.any (fun b => b.theme.isSome) ||
    decide (themeOf live = some waysTheme)

/- The record with the theme marked ours when it may move. -/
def themeStripped
    (strip : Owned)
    (themeMoves : Bool) : Owned :=
  if themeMoves then { strip with theme := some waysTheme }
  else strip

/- The user's view before a merge. -/
def userBefore
    (live : Value)
    (base : Owned)
    (merged : Merged) : Value :=
  strippedUserView live
    (themeStripped (unionOwned base merged.base)
      (themeMayMove live [base, merged.base]))

/- The user's view after it. -/
def userAfter
    (live : Value)
    (base : Owned)
    (merged : Merged) : Value :=
  strippedUserView merged.settings
    (themeStripped merged.base
      (themeMayMove live [base, merged.base]))

/- The self-audit: the two views are equal. -/
def auditPasses
    (live : Value)
    (base : Owned)
    (merged : Merged) : Bool :=
  decide (userBefore live base merged = userAfter live base merged)

end Settings

------------------------------------------------------------
-- Files
------------------------------------------------------------

namespace Settings

open Json

/- The files an apply reads and writes; none is missing. -/
structure Files where
  settings : Option Value
  backup : Option Value
  base : Option Value
deriving DecidableEq

/- How an apply ended. -/
inductive Applied where
| upToDate
| merged
| reverted
deriving DecidableEq

/- A file's document; a missing file reads as empty. -/
def readJsonOrEmpty
    (file : Option Value) : Value :=
  file.getD (.obj KeyMap.empty)

/- The live entries that are ours by shape, per event. -/
def seedOursFromLive
    (live : Value) : KeyMap String Value :=
  (hooksObject live).filterMap
    (fun _ entries =>
      listField ((entries.asArray.getD []).filter entryIsOurs))

/- The recorded base, or one seeded from the live hooks. -/
def baseFor
    (live : Value)
    (baseFile : Option Value) : Owned :=
  match baseFile with
  | some v => Owned.fromValue v
  | none => { Owned.default with hooks := seedOursFromLive live }

/-
  The base a merge that changes nothing leaves behind: saved
  when it moved, and on first sight only for the theme.
-/
def saveMovedBase
    (baseFile : Option Value)
    (base merged : Owned) : Option Value :=
  let themeMoved :=
    decide
      ((merged.theme, merged.priorTheme) ≠
        (base.theme, base.priorTheme))
  if !themeMoved &&
      !(baseFile.isSome &&
        decide (merged.toValue ≠ base.toValue)) then
    baseFile
  else some merged.toValue

/- The merge over the files, undone if the audit fails. -/
def applyToFiles
    (source : Value)
    (files : Files)
    (denySecrets wantTheme : Bool) : Files × Applied :=
  let desired :=
    (source.get? "hooks").getD (.obj KeyMap.empty)
  let live := readJsonOrEmpty files.settings
  let base := baseFor live files.base
  let m := merge live desired base denySecrets wantTheme
  if m.settings = live then
    ({ files with
        base := saveMovedBase files.base base m.base },
      .upToDate)
  else
    let backup := files.settings.or files.backup
    if auditPasses live base m then
      ({ settings := some m.settings
         backup := backup
         base := some m.base.toValue },
        .merged)
    else
      ({ settings := backup.or (some m.settings)
         backup := backup
         base := files.base },
        .reverted)

end Settings
