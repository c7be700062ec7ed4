import AgentWays.Lib.KeyMap
import Mathlib.Data.String.Basic

/-
  The instance registry of one project root.

  Each session holds a slot with an instance name, or is an
  alias of the session that took its slot when its id
  changed. A rename moves a slot to the new id in one locked
  write of the file. Times are in seconds.

  Key definitions include:
    * `Instances.InstanceEntry`
    * `Instances.detach`
    * `Instances.chainEnd`
    * `Instances.rename`
    * `Instances.allocate`
    * `Instances.registerWithAge`
    * `Instances.refresh`

  Main declarations:
    * `Instances.held_rename`
    * `Instances.rename_rename`
-/

------------------------------------------------------------
-- Rows
------------------------------------------------------------

namespace Instances

/- One row of the registry. -/
structure InstanceEntry where
  instanceName : String
  registeredAt : Nat
  lastSeen : Nat
  aliasOf : Option String
deriving DecidableEq

def InstanceEntry.isSlot
    (e : InstanceEntry) : Bool :=
  e.aliasOf.isNone

/- The rows of the file, by session. -/
abbrev Rows := KeyMap String InstanceEntry

/- The instance of the slot a session holds. -/
def held
    (rows : Rows)
    (id : String) : Option String :=
  ((rows.get? id).filter InstanceEntry.isSlot).map
    InstanceEntry.instanceName

/- Every row changed, under its session. -/
def mapRows
    (edit : String → InstanceEntry → InstanceEntry)
    (rows : Rows) : Rows :=
  rows.filterMap (fun id e => some (edit id e))

/-
  A row removed. The aliases that pointed at an alias point
  at its target; those of a slot are left to the caller.
-/
def detach
    (rows : Rows)
    (id : String) : Rows :=
  match rows.get? id with
  | none => rows
  | some entry =>
      match entry.aliasOf with
      | none => rows.erase id
      | some target =>
          mapRows
            (fun _ e =>
              if e.aliasOf = some id then
                { e with aliasOf := some target }
              else e)
            (rows.erase id)

/- The chain followed for at most so many rows. -/
def chainFrom
    (rows : Rows) : Nat → String → Option String
| 0, _ => none
| n + 1, id =>
    match (rows.get? id).bind InstanceEntry.aliasOf with
    | some next => chainFrom rows n next
    | none => some id

/- The first id of a chain of aliases that is no alias. -/
def chainEnd
    (rows : Rows)
    (id : String) : Option String :=
  ((rows.get? id).bind InstanceEntry.aliasOf).bind
    (chainFrom rows rows.keys.length)

/- The slot of `old` given to `new`, unless `new` has one. -/
def takeSlot
    (rows : Rows)
    (old new : String)
    (now : Nat) : Rows × String :=
  match held rows new with
  | some name => (rows, name)
  | none =>
      let rows := detach rows new
      match rows.get? old with
      | none => (rows, "")
      | some slot =>
          (rows.insert new { slot with lastSeen := now },
            slot.instanceName)

/- `old` as an alias of `new`. -/
def aliasTo
    (rows : Rows)
    (old new : String) : Rows :=
  match rows.get? old with
  | none => rows
  | some e =>
      rows.insert old { e with aliasOf := some new }

/- The rows after `rename` at `now`. -/
def rename
    (old new : String)
    (now : Nat)
    (rows : Rows) : Rows :=
  if old = new ∨ held rows old = none then rows
  else
    let taken := takeSlot rows old new now
    let aliased := aliasTo taken.1 old new
    mapRows
      (fun id e =>
        if chainEnd aliased id = some new then
          { e with instanceName := taken.2 }
        else e)
      aliased

end Instances

------------------------------------------------------------
-- Registration
------------------------------------------------------------

namespace Instances

/- The first names handed out. -/
def greek : List String :=
  ["alpha", "beta", "gamma", "delta", "epsilon", "zeta",
    "eta", "theta", "iota", "kappa", "lambda", "mu", "nu",
    "xi", "omicron", "pi", "rho", "sigma", "tau", "upsilon",
    "phi", "chi", "psi", "omega"]

/-
  The first number from `n` on that is not taken, looked for
  in at most so many.
-/
def nextFreeNumber
    (taken : List String) : Nat → Nat → String
| 0, n => toString n
| fuel + 1, n =>
    if toString n ∈ taken then
      nextFreeNumber taken fuel (n + 1)
    else toString n

/-
  The first Greek letter not taken; past the letters, the
  first number. As many numbers as there are taken names
  and one more hold a free one.
-/
def nextFreeInstance
    (taken : List String) : String :=
  match greek.find? (fun letter => letter ∉ taken) with
  | some letter => letter
  | none =>
      nextFreeNumber taken taken.length (greek.length + 1)

/- The instances the slots hold. -/
def takenNames
    (rows : Rows) : List String :=
  (rows.entries.filter (fun e => e.2.isSlot)).map
    (fun e => e.2.instanceName)

/- Whether an id is an alias whose chain reaches no slot. -/
def orphaned
    (rows : Rows)
    (id : String) : Bool :=
  (rows.get? id).any (fun e => !e.isSlot) &&
    (chainEnd rows id).all
      (fun last => (rows.get? last).isNone)

/- The orphaned aliases that read a name. -/
def orphansOf
    (rows : Rows)
    (name : String) : List String :=
  (rows.entries.filter
    (fun e =>
      e.2.instanceName == name && orphaned rows e.1)).map
    Prod.fst

/-
  A slot of its own for `sid`, with the lowest name no slot
  holds. An alias under `sid` is detached first, and an
  orphaned alias that reads the name is dropped.
-/
def allocate
    (rows : Rows)
    (sid : String)
    (now : Nat) : Rows × String :=
  let rows := detach rows sid
  let name := nextFreeInstance (takenNames rows)
  let rows := (orphansOf rows name).foldl detach rows
  (rows.insert sid
    { instanceName := name
      registeredAt := now
      lastSeen := now
      aliasOf := none }, name)

/- Every row seen since `cutoff`, and `sid`'s own. -/
def prune
    (sid : String)
    (cutoff : Nat)
    (rows : Rows) : Rows :=
  rows.filterMap
    (fun id e =>
      if id = sid ∨ cutoff ≤ e.lastSeen then some e else none)

/- A row seen at `now`. -/
def refresh
    (rows : Rows)
    (id : String)
    (now : Nat) : Rows :=
  match rows.get? id with
  | none => rows
  | some e => rows.insert id { e with lastSeen := now }

/- The rows and the instance after a registration. -/
def registerWithAge
    (sid : String)
    (gcAge now : Nat)
    (rows : Rows) : Rows × String :=
  let rows := prune sid (now - gcAge) rows
  match held rows sid with
  | some name => (refresh rows sid now, name)
  | none => allocate rows sid now

end Instances

------------------------------------------------------------
-- A Rename Done Twice
------------------------------------------------------------

namespace Instances

variable {rows : Rows} {old new : String} {now : Nat}

theorem get?_mapRows
    (edit : String → InstanceEntry → InstanceEntry)
    (rows : Rows)
    (id : String) :
    (mapRows edit rows).get? id =
      (rows.get? id).map (edit id) := by
  rw [mapRows, KeyMap.get?_filterMap]
  cases rows.get? id <;> rfl

/- A slot of another session is not touched by a detach. -/
theorem get?_detach_of_slot
    {slot : InstanceEntry}
    (hNe : old ≠ new)
    (hGet : rows.get? old = some slot)
    (hSlot : slot.aliasOf = none) :
    (detach rows new).get? old = some slot := by
  unfold detach
  split
  · exact hGet
  · split
    · rw [KeyMap.get?_erase, if_neg hNe]
      exact hGet
    · rw [get?_mapRows, KeyMap.get?_erase, if_neg hNe, hGet,
        Option.map_some]
      simp [hSlot]

/- Its own slot is still there when `old` is made an alias. -/
theorem get?_takeSlot
    {slot : InstanceEntry}
    (hNe : old ≠ new)
    (hGet : rows.get? old = some slot)
    (hSlot : slot.aliasOf = none) :
    (takeSlot rows old new now).1.get? old = some slot := by
  have hDetached := get?_detach_of_slot hNe hGet hSlot
  unfold takeSlot
  split
  · exact hGet
  · simp only [hDetached]
    rw [KeyMap.get?_insert, if_neg hNe]
    exact hDetached

theorem held_eq_none_iff
    {id : String} :
    held rows id = none ↔
      ∀ e, rows.get? id = some e → e.aliasOf ≠ none := by
  unfold held
  cases hGet : rows.get? id with
  | none => simp
  | some e =>
      simp [InstanceEntry.isSlot, Option.filter_some]

/- A rename leaves `old` no slot. -/
theorem held_rename
    (hNe : old ≠ new)
    (now : Nat)
    (rows : Rows) :
    held (rename old new now rows) old = none := by
  unfold rename
  split
  · rename_i hNothing
    exact hNothing.resolve_left hNe
  · rename_i hSlot
    rw [not_or, held_eq_none_iff] at hSlot
    push Not at hSlot
    rcases hSlot with ⟨-, slot, hGet, hAlias⟩
    rw [held_eq_none_iff]
    intro e hRow
    dsimp only at hRow
    have hOld :
        (aliasTo (takeSlot rows old new now).1 old new).get?
            old =
          some { slot with aliasOf := some new } := by
      unfold aliasTo
      rw [get?_takeSlot hNe hGet hAlias]
      simp
    rw [get?_mapRows, hOld, Option.map_some,
      Option.some.injEq] at hRow
    rw [← hRow]
    split <;> simp

theorem rename_of_held_none
    (hNone : held rows old = none) :
    rename old new now rows = rows := by
  unfold rename
  rw [if_pos (Or.inr hNone)]

/- A rename done again, at any time, changes nothing. -/
theorem rename_rename
    (hNe : old ≠ new)
    (now now' : Nat)
    (rows : Rows) :
    rename old new now' (rename old new now rows) =
      rename old new now rows :=
  rename_of_held_none (held_rename hNe now rows)

end Instances
