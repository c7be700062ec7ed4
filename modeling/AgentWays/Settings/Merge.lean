import AgentWays.Settings.Entries

/-
  The three-way merge of agent-ways' slices into the live
  settings document.

  Three slices are shared: the hook entries, the permission
  strings and, while it is claimed, the theme. The base says
  what the last merge added. Objects are compared without
  regard to the order of their keys, so the order in which
  the source visits events and fields is not modelled.

  Key definitions include:
    * `Settings.Owned`
    * `Settings.mergeEvent`
    * `Settings.mergePermissions`
    * `Settings.mergeTheme`
    * `Settings.mergeImpl`
    * `Settings.merge`
    * `Settings.withdraw`
-/

------------------------------------------------------------
-- Constants
------------------------------------------------------------

namespace Settings

/- The permission strings owned in `permissions.allow`. -/
def waysPerms : List String :=
  ["Bash(ways:*)", "Bash(attend:*)", "Bash(attend-chat:*)",
    "Bash(way-embed:*)", "Edit(~/.claude/**)"]

/- The secret-path baseline of `permissions.deny`. -/
def waysDeny : List String :=
  ["Read(~/.ssh/**)", "Edit(~/.ssh/**)", "Read(~/.aws/**)",
    "Read(~/.gnupg/**)", "Read(~/.config/gcloud/**)",
    "Read(~/.kube/config)", "Read(~/.netrc)",
    "Read(./.env)", "Read(./.env.local)"]

/- The theme the ways-theme mod keeps current. -/
def waysTheme : String := "custom:ways"

end Settings

------------------------------------------------------------
-- The Base
------------------------------------------------------------

namespace Settings

open Json

/- The slices last applied: the merge base. -/
@[ext]
structure Owned where
  hooks : KeyMap String Value
  perms : List String
  deny : List String
  theme : Option String
  priorTheme : Option String
deriving DecidableEq

/- The base before the first merge. -/
def Owned.default : Owned where
  hooks := KeyMap.empty
  perms := []
  deny := []
  theme := none
  priorTheme := none

/- The strings of a list field; none where it is no list. -/
def strVec
    (v : Value)
    (key : String) : List String :=
  ((((v.get? key).bind Value.asArray).map
    (fun items => items.filterMap Value.asStr))).getD []

def Owned.fromValue
    (v : Value) : Owned where
  hooks :=
    ((v.get? "hooks").bind Value.asObject).getD KeyMap.empty
  perms := strVec v "perms"
  deny := strVec v "deny"
  theme := (v.get? "theme").bind Value.asStr
  priorTheme := (v.get? "prior_theme").bind Value.asStr

/- An optional string as JSON. -/
def optionStr
    (s : Option String) : Value :=
  (s.map Value.str).getD Value.null

def Owned.toValue
    (o : Owned) : Value :=
  .obj
    (KeyMap.ofList
      [("hooks", .obj o.hooks),
        ("perms", .array (o.perms.map Value.str)),
        ("deny", .array (o.deny.map Value.str)),
        ("theme", optionStr o.theme),
        ("prior_theme", optionStr o.priorTheme)])

/- A merge's new document, and the base to keep. -/
@[ext]
structure Merged where
  settings : Value
  base : Owned
deriving DecidableEq

end Settings

------------------------------------------------------------
-- Hooks
------------------------------------------------------------

namespace Settings

open Json

/- The entries of an event; none where it is no list. -/
def entriesOf
    (hooks : KeyMap String Value)
    (event : String) : List Value :=
  ((hooks.get? event).bind Value.asArray).getD []

/- The fields of a document's `hooks`, if it has any. -/
def hooksObject
    (v : Value) : KeyMap String Value :=
  ((v.get? "hooks").bind Value.asObject).getD KeyMap.empty

/- A list as a field: there only if it has entries. -/
def listField
    (items : List Value) : Option Value :=
  if items.isEmpty then none else some (.array items)

/- A map as a field: there only if it has keys. -/
def mapField
    (m : KeyMap String Value) : Option Value :=
  if m.isEmpty then none else some (.obj m)

/- Each of `ys` appended unless it is already there. -/
def pushMissing
    {α : Type}
    [DecidableEq α]
    (xs ys : List α) : List α :=
  ys.foldl
    (fun acc y => if y ∈ acc then acc else acc ++ [y]) xs

/-
  The entries of one event after the merge. A withdrawal
  takes out what is shipped, in either spelling; a merge
  also takes out what the base or the shape calls ours, and
  appends the shipped entries quoted.
-/
def mergeEvent
    (theirs baseEntries ours : List Value)
    (withdrawing : Bool) : List Value :=
  let oursQuoted := ours.map quoteEntryCommands
  if withdrawing then
    theirs.filter
      (fun e => decide (e ∉ ours) && decide (e ∉ oursQuoted))
  else
    theirs.filter
        (fun e =>
          decide (e ∉ baseEntries) && decide (e ∉ ours) &&
            decide (e ∉ oursQuoted) && !entryIsOurs e) ++
      oursQuoted

/- The merged `hooks` object, without empty events. -/
def mergeHooks
    (theirs ours base : KeyMap String Value)
    (withdrawing : Bool) : KeyMap String Value :=
  KeyMap.collect
    (fun event =>
      listField
        (mergeEvent (entriesOf theirs event)
          (entriesOf base event) (entriesOf ours event)
          withdrawing))
    (pushMissing theirs.keys ours.keys)

/- The hook entries the new base records, quoted. -/
def baseHooks
    (ours : KeyMap String Value)
    (withdrawing : Bool) : KeyMap String Value :=
  if withdrawing then KeyMap.empty
  else
    ours.filterMap
      (fun _ entries =>
        entries.asArray.map
          (fun items =>
            .array (items.map quoteEntryCommands)))

end Settings

------------------------------------------------------------
-- Permissions
------------------------------------------------------------

namespace Settings

open Json

/- Whether an entry is a string of the list. -/
def listedStr
    (strs : List String)
    (v : Value) : Bool :=
  (v.asStr.map (fun s => decide (s ∈ strs))).getD false

/-
  A permission list: theirs without what was added before
  and is no longer shipped, then the missing ones of ours.
-/
def mergeStrings
    (theirs : List Value)
    (ours base : List String) : List Value :=
  let deprecated := base.filter (fun p => decide (p ∉ ours))
  pushMissing
    (theirs.filter (fun v => !listedStr deprecated v))
    (ours.map Value.str)

/-
  The strings of ours the new base records: those added now
  or by an earlier merge.
-/
def recordStrings
    (theirs : List Value)
    (ours base : List String) : List String :=
  let theirsStrs := theirs.filterMap Value.asStr
  ours.filter
    (fun p => decide (p ∈ base) || decide (p ∉ theirsStrs))

/- The strings wanted in `permissions.allow`. -/
def oursPerms
    (withdrawing : Bool) : List String :=
  if withdrawing then [] else waysPerms

/- The strings wanted in `permissions.deny`. -/
def oursDeny
    (denySecrets withdrawing : Bool) : List String :=
  if denySecrets && !withdrawing then waysDeny else []

/- The entries of a permission list; none if it is no list. -/
def listOf
    (perms : KeyMap String Value)
    (key : String) : List Value :=
  ((perms.get? key).bind Value.asArray).getD []

/- The fields of a document's `permissions`, if it has any. -/
def permissionsObject
    (v : KeyMap String Value) : KeyMap String Value :=
  ((v.get? "permissions").bind Value.asObject).getD
    KeyMap.empty

/-
  The merged `permissions` object. An empty `deny` is taken
  out, an empty `allow` on a withdrawal only.
-/
def mergePermissions
    (perms : KeyMap String Value)
    (base : Owned)
    (denySecrets withdrawing : Bool) : KeyMap String Value :=
  let newAllow :=
    mergeStrings (listOf perms "allow")
      (oursPerms withdrawing) base.perms
  let perms :=
    if withdrawing then
      perms.assign "allow" (listField newAllow)
    else perms.insert "allow" (.array newAllow)
  let newDeny :=
    mergeStrings (listOf perms "deny")
      (oursDeny denySecrets withdrawing) base.deny
  perms.assign "deny" (listField newDeny)

end Settings

------------------------------------------------------------
-- Theme
------------------------------------------------------------

namespace Settings

open Json

/- The theme a document names, if it is a string. -/
def themeOf
    (v : Value) : Option String :=
  (v.get? "theme").bind Value.asStr

/- A theme to give back: any but the mod's own. -/
def notOurs
    (theme : Option String) : Option String :=
  theme.filter (fun t => decide (t ≠ waysTheme))

/- The person set another theme after the claim. -/
def changedSince
    (theirs : Option String)
    (base : Owned) : Bool :=
  base.theme.isSome && theirs.isSome &&
    decide (theirs ≠ base.theme)

/-
  The theme key after the merge, with the claim and the
  value to give back that the new base records.
-/
def mergeTheme
    (out : KeyMap String Value)
    (theirs : Option String)
    (base : Owned)
    (wanted : Bool) :
    KeyMap String Value × Option String × Option String :=
  match wanted, base.theme with
  | true, none =>
      (out.insert "theme" (.str waysTheme),
        some waysTheme, notOurs theirs)
  | true, some _ =>
      if changedSince theirs base then
        (out, base.theme, base.priorTheme)
      else
        (out.insert "theme" (.str waysTheme),
          some waysTheme, base.priorTheme)
  | false, some _ =>
      if changedSince theirs base then (out, none, none)
      else
        match notOurs base.priorTheme with
        | some p => (out.insert "theme" (.str p), none, none)
        | none => (out.erase "theme", none, none)
  | false, none =>
      if theirs = some waysTheme then
        (out.erase "theme", none, none)
      else (out, none, none)

end Settings

------------------------------------------------------------
-- The Merge
------------------------------------------------------------

namespace Settings

open Json

/- The fields of a value, none where it is no object. -/
def fieldsOf
    (v : Value) : KeyMap String Value :=
  v.asObject.getD KeyMap.empty

def mergeImpl
    (live desiredHooks : Value)
    (base : Owned)
    (denySecrets wantTheme withdrawing : Bool) : Merged :=
  let oursHooks := fieldsOf desiredHooks
  let out :=
    (fieldsOf live).assign "hooks"
      (mapField
        (mergeHooks (hooksObject live) oursHooks base.hooks
          withdrawing))
  let permsObj := permissionsObject out
  let newPerms :=
    mergePermissions permsObj base denySecrets withdrawing
  let out :=
    if withdrawing then
      out.assign "permissions" (mapField newPerms)
    else out.insert "permissions" (.obj newPerms)
  let themed :=
    mergeTheme out (themeOf live) base
      (wantTheme && !withdrawing)
  { settings := .obj themed.1
    base :=
      { hooks := baseHooks oursHooks withdrawing
        perms :=
          recordStrings (listOf permsObj "allow")
            (oursPerms withdrawing) base.perms
        deny :=
          recordStrings (listOf permsObj "deny")
            (oursDeny denySecrets withdrawing) base.deny
        theme := themed.2.1
        priorTheme := themed.2.2 } }

/- The merge: what is wanted is put into the document. -/
def merge
    (live desiredHooks : Value)
    (base : Owned)
    (denySecrets wantTheme : Bool) : Merged :=
  mergeImpl live desiredHooks base denySecrets wantTheme false

/- The inverse: what was put in is taken out. -/
def withdraw
    (live shippedHooks : Value)
    (base : Owned) : Merged :=
  mergeImpl live shippedHooks base false false true

end Settings
