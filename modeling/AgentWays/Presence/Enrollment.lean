import AgentWays.Lib.KeyMap
import AgentWays.Lib.RustText
import Mathlib.Data.String.Basic

/-
  Whether a session is enrolled in attend.

  The records directory holds one record for each session
  and an index from each Claude Code process to the session
  it runs. Every edit of a record is a read and a write
  under one lock, so it is taken as one step here. A record
  reads back as it was written.

  Key definitions include:
    * `Presence.Record`
    * `Presence.Enrolled`
    * `Presence.Enrolled.writeIn`
    * `Presence.Enrolled.editIn`
    * `Presence.enrollRecord`, `Presence.withdrawRecord`
    * `Presence.optOutRecord`
    * `Presence.carryRecord`

  Main declarations:
    * `Presence.readIn_editIn`
    * `Presence.readIn_editIn_of_ne`
-/

------------------------------------------------------------
-- Records
------------------------------------------------------------

namespace Presence

/- A way a session enrolled. -/
inductive Source where
| run
| join
| listen
| add
deriving DecidableEq

/- What hosts a session's delivery, if not the default. -/
inductive Host where
| mod
deriving DecidableEq

/- A host, and the process it was recorded in. -/
structure HostRecord where
  host : Host
  claude : Option String
deriving DecidableEq

/- One session's enrollment record. -/
@[ext] structure Record where
  sources : List Source
  optout : Bool
  optoutAt : Option Nat
  host : Option HostRecord
  claude : Option String
  since : Option Nat
  previous : List String
deriving DecidableEq

/- The record that says nothing. -/
def Record.blank : Record where
  sources := []
  optout := false
  optoutAt := none
  host := none
  claude := none
  since := none
  previous := []

/- How many earlier ids a record keeps. -/
def previousKept : Nat := 8

/- The records directory, and its index of processes. -/
structure Enrolled where
  records : KeyMap String Record
  index : KeyMap String String
deriving DecidableEq

def Enrolled.readIn
    (d : Enrolled)
    (sid : String) : Option Record :=
  d.records.get? sid

/- The ways a session is enrolled by. -/
def Enrolled.sources
    (d : Enrolled)
    (sid : String) : List Source :=
  ((d.readIn sid).map Record.sources).getD []

end Presence

------------------------------------------------------------
-- Writing
------------------------------------------------------------

namespace Presence

open RustText

/- A process key without its host. -/
def processPart
    (key : String) : String :=
  match key.toList.reverse.dropWhile (fun c => c ≠ '@') with
  | [] => key
  | _ :: rest => String.ofList rest.reverse

def sameProcess
    (recorded own : String) : Bool :=
  decide (processPart recorded = processPart own)

/- Enrolled, and in the process of the key. -/
def Enrolled.enrolledUnder
    (d : Enrolled)
    (sid key : String) : Bool :=
  match d.readIn sid with
  | none => false
  | some r =>
      !r.sources.isEmpty &&
        (r.claude.map (fun k => sameProcess k key)).getD false

/-
  The index names an id the process had before, still
  enrolled and not carried to this one.
-/
def Enrolled.indexesAnother
    (d : Enrolled)
    (key sid : String)
    (record : Record) : Bool :=
  match d.index.get? (processPart key) with
  | none => false
  | some indexed =>
      decide (trim indexed ≠ sid) &&
        decide (trim indexed ∉ record.previous) &&
        d.enrolledUnder (trim indexed) key

/-
  What is kept of a record: its process alone once it holds
  no way, and nothing when it names none.
-/
def Record.kept
    (r : Record) : Option Record :=
  if r.sources.isEmpty then
    r.claude.map
      (fun key => { Record.blank with claude := some key })
  else some r

def Enrolled.writeIn
    (d : Enrolled)
    (sid : String)
    (record : Record) : Enrolled :=
  let d' :=
    { d with records := d.records.assign sid record.kept }
  if record.sources.isEmpty then d'
  else
    match record.claude with
    | none => d'
    | some key =>
        if d'.indexesAnother key sid record then d'
        else
          { d' with
            index := d'.index.insert (processPart key) sid }

/- The first of a write's two files, the record. -/
def Enrolled.recordIn
    (d : Enrolled)
    (sid : String)
    (record : Record) : Enrolled :=
  { d with records := d.records.assign sid record.kept }

/- The second, the index entry of a record with a way. -/
def Enrolled.indexIn
    (d : Enrolled)
    (sid : String)
    (record : Record) : Enrolled :=
  if record.sources.isEmpty then d
  else
    match record.claude with
    | none => d
    | some key =>
        if d.indexesAnother key sid record then d
        else
          { d with
            index := d.index.insert (processPart key) sid }

theorem writeIn_eq
    (d : Enrolled)
    (sid : String)
    (record : Record) :
    d.writeIn sid record =
      (d.recordIn sid record).indexIn sid record := rfl

/- A record edited under the lock. -/
def Enrolled.editIn
    (d : Enrolled)
    (sid : String)
    (edit : Record → Record) : Enrolled :=
  d.writeIn sid (edit ((d.readIn sid).getD Record.blank))

end Presence

------------------------------------------------------------
-- Edits
------------------------------------------------------------

namespace Presence

/-
  Enrolled by a way at `now`, in seconds. An opt-out stands
  only for a run that began no later than it.
-/
def enrollRecord
    (source : Source)
    (host : Option Host)
    (claude : Option String)
    (runSince : Option Nat)
    (now : Nat)
    (r : Record) : Record :=
  let stands :=
    (runSince.map
      (fun since =>
        (r.optoutAt.map
          (fun made => decide (since ≤ made))).getD
            false)).getD false
  { r with
    since := if r.sources.isEmpty then some now else r.since
    sources :=
      if source ∈ r.sources then r.sources
      else r.sources ++ [source]
    optout := stands && r.optout
    optoutAt := if stands then r.optoutAt else none
    host :=
      match host with
      | some h => some { host := h, claude := claude }
      | none => r.host
    claude := if claude.isSome then claude else r.claude }

def withdrawRecord
    (source : Source)
    (r : Record) : Record :=
  { r with
    sources := r.sources.filter (fun s => decide (s ≠ source)) }

/- The opt-out, with a run that held the session or none. -/
def optOutRecord
    (live : Bool)
    (made : Nat)
    (r : Record) : Record :=
  if live then
    let kept :=
      r.sources.filter (fun s => decide (s = .run))
    { r with
      sources := if kept.isEmpty then [.run] else kept
      optout := true
      optoutAt := some made }
  else { r with sources := [] }

/- A pending opt-out takes effect. -/
def applyOptOut
    (r : Record) : Record :=
  if r.optout then { r with sources := [] } else r

/- The later of two times, where a missing one is earliest. -/
def laterOf : Option Nat → Option Nat → Option Nat
| none, t => t
| t, none => t
| some a, some b => some (max a b)

/- An id after the others, unless it is there already. -/
def pushPrevious
    (new : String)
    (previous : List String)
    (sid : String) : List String :=
  if sid ≠ new ∧ sid ∉ previous then previous ++ [sid]
  else previous

/- The earlier ids of `new`, the last of them kept. -/
def carryPrevious
    (old new : String)
    (source : Record)
    (previous : List String) : List String :=
  let all :=
    (source.previous ++ [old]).foldl (pushPrevious new) previous
  all.drop (all.length - previousKept)

/- `old`'s record `source` merged into `new`'s. -/
def carryRecord
    (old new : String)
    (source : Record)
    (r : Record) : Record where
  sources :=
    source.sources.foldl
      (fun ways s => if s ∈ ways then ways else ways ++ [s])
      r.sources
  optout := r.optout || source.optout
  optoutAt := laterOf r.optoutAt source.optoutAt
  host := if r.host.isNone then source.host else r.host
  claude := if r.claude.isNone then source.claude else r.claude
  since := if r.since.isNone then source.since else r.since
  previous := carryPrevious old new source r.previous

end Presence

------------------------------------------------------------
-- What An Edit Leaves
------------------------------------------------------------

namespace Presence

variable {d : Enrolled} {sid : String}

theorem records_writeIn
    (d : Enrolled)
    (sid : String)
    (record : Record) :
    (d.writeIn sid record).records =
      d.records.assign sid record.kept := by
  unfold Enrolled.writeIn
  dsimp only
  split
  · rfl
  · split
    · rfl
    · split <;> rfl

/- An edited record reads as what is kept of it. -/
theorem readIn_editIn
    (edit : Record → Record) :
    (d.editIn sid edit).readIn sid =
      (edit ((d.readIn sid).getD Record.blank)).kept := by
  rw [Enrolled.editIn, Enrolled.readIn, records_writeIn,
    KeyMap.get?_assign, if_pos rfl]

/- Another session's record is left alone. -/
theorem readIn_editIn_of_ne
    {sid' : String}
    (edit : Record → Record)
    (hNe : sid' ≠ sid) :
    (d.editIn sid edit).readIn sid' = d.readIn sid' := by
  rw [Enrolled.editIn, Enrolled.readIn, records_writeIn,
    KeyMap.get?_assign, if_neg hNe]
  rfl

theorem sources_kept
    (r : Record) :
    (r.kept.map Record.sources).getD [] = r.sources := by
  unfold Record.kept
  split
  · rename_i hEmpty
    rw [List.isEmpty_iff] at hEmpty
    rw [hEmpty]
    cases r.claude <;> rfl
  · rfl

/- The ways after an edit are those of the edited record. -/
theorem sources_editIn
    (edit : Record → Record) :
    (d.editIn sid edit).sources sid =
      (edit ((d.readIn sid).getD Record.blank)).sources := by
  rw [Enrolled.sources, readIn_editIn, sources_kept]

theorem sources_editIn_of_ne
    {sid' : String}
    (edit : Record → Record)
    (hNe : sid' ≠ sid) :
    (d.editIn sid edit).sources sid' = d.sources sid' := by
  rw [Enrolled.sources, readIn_editIn_of_ne edit hNe]
  rfl

theorem sources_getD
    (d : Enrolled)
    (sid : String) :
    ((d.readIn sid).getD Record.blank).sources =
      d.sources sid := by
  rw [Enrolled.sources]
  cases d.readIn sid <;> rfl

end Presence
