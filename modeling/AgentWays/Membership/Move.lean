import AgentWays.Attend.StateFile
import AgentWays.Groups.Store
import AgentWays.Instances.Registry
import AgentWays.Presence.Carry

/-
  The move of a session to its new id.

  `move_session` moves what attend keeps under the old id,
  store after store: the seen-set, the enrollment record,
  the registry slot, the channel memberships with their
  invitations and briefings, two files of the session, and
  the heartbeat, which is cleared. Each point at which it
  can stop lies between two writes, renames or removals of a
  file; each of those is atomic. The stores are taken as
  what is read from their files, and the registry is that of
  the session's project root.

  Key definitions include:
    * `Membership.Bus`
    * `Membership.moveSession`
    * `Membership.MovePoint`
    * `Membership.moveStep`
    * `Membership.stoppedAfter`
-/

------------------------------------------------------------
-- The Stores
------------------------------------------------------------

namespace Membership

open Attend
open Presence

/- The record kinds that follow a member to its new id. -/
inductive RecordKind where
| invite
| brief
deriving DecidableEq

def RecordKind.extension : RecordKind → String
| .invite => Groups.inviteKind
| .brief => Groups.briefKind

/- The channels: the state and the directories. -/
@[ext] structure Channels where
  roster : Groups.GroupState
  dirs : KeyMap String Groups.ChannelDir

/-
  What attend keeps of its sessions. `trays` has the names
  of the files in every tray, when the signals can be read.
-/
structure Bus where
  seen : KeyMap String StateSnapshot
  enrolled : Enrolled
  instances : Instances.Rows
  channels : Channels
  trays : Option (Finset String)
  lastInbound : KeyMap String String
  banner : KeyMap String String
  heartbeats : Finset String

/- The names of every file under the signals. -/
def Bus.existing
    (b : Bus) : Option (Finset String) :=
  b.trays.map
    (fun names =>
      names ∪
        (b.channels.dirs.entries.flatMap
          (fun e => e.2.keys)).toFinset)

end Membership

------------------------------------------------------------
-- What Each Store Does
------------------------------------------------------------

namespace Membership

open Attend
open Presence

/- `checkpoint` of the old session's state for the new one. -/
def Bus.checkpoint
    (new : String)
    (snapshot : StateSnapshot)
    (b : Bus) : Bus :=
  { b with
    seen :=
      b.seen.insert new
        (merged
          ((b.seen.get? new).getD StateSnapshot.default)
          snapshot false b.existing) }

def Bus.clear
    (old : String)
    (b : Bus) : Bus :=
  { b with seen := b.seen.erase old }

def Bus.moveSeen
    (old new : String)
    (b : Bus) : Bus :=
  match b.seen.get? old with
  | none => b
  | some snapshot => (b.checkpoint new snapshot).clear old

/- The state saved again where `old` is a member. -/
def Channels.renameRoster
    (old new : String)
    (c : Channels) : Channels :=
  let renamed := Groups.renameIn c.roster old new
  if renamed.2 then { c with roster := renamed.1 } else c

/- One record moved, if there is one. -/
def Channels.moveRecord
    (old new : String)
    (c : Channels)
    (place : String × RecordKind) : Channels :=
  match c.dirs.get? place.1 with
  | none => c
  | some dir =>
      { c with
        dirs :=
          c.dirs.insert place.1
            (Groups.moveRecord old new place.2.extension dir) }

/- The records to look at, in each channel directory. -/
def Channels.records
    (c : Channels) : List (String × RecordKind) :=
  (c.dirs.keys.filter (fun name => !name.isEmpty)).flatMap
    (fun name => [(name, .invite), (name, .brief)])

def Channels.moveRecords
    (old new : String)
    (c : Channels) : Channels :=
  c.records.foldl (Channels.moveRecord old new) c

def Channels.renameMember
    (old new : String)
    (c : Channels) : Channels :=
  (c.renameRoster old new).moveRecords old new

/- `fs::rename` of a session's file, which may be missing. -/
def moveFile
    (old new : String)
    (files : KeyMap String String) : KeyMap String String :=
  match files.get? old with
  | none => files
  | some body => (files.erase old).insert new body

end Membership

------------------------------------------------------------
-- The Move
------------------------------------------------------------

namespace Membership

open Attend
open Presence

/- The whole move, with the registry written at `now`. -/
def moveSession
    (old new : String)
    (now : Nat)
    (b : Bus) : Bus :=
  let b := b.moveSeen old new
  let b := { b with enrolled := b.enrolled.carryIn old new }
  let b :=
    { b with
      instances := Instances.rename old new now b.instances }
  let b :=
    { b with channels := b.channels.renameMember old new }
  let b :=
    { b with lastInbound := moveFile old new b.lastInbound }
  let b := { b with banner := moveFile old new b.banner }
  { b with heartbeats := b.heartbeats.erase old }

/- What the move does next, with what it has read. -/
inductive MovePoint where
| load
| checkpoint (snapshot : StateSnapshot)
| clear
| read
| writeNew (source : Record)
| indexNew (record : Record)
| blankOld
| rename
| roster
| records (left : List (String × RecordKind))
| lastInbound
| banner
| heartbeat
| done

/- The next read or write of the move. -/
def moveStep
    (old new : String)
    (now : Nat) : Bus × MovePoint → Bus × MovePoint
| (b, .load) =>
    match b.seen.get? old with
    | none => (b, .read)
    | some snapshot => (b, .checkpoint snapshot)
| (b, .checkpoint snapshot) =>
    (b.checkpoint new snapshot, .clear)
| (b, .clear) => (b.clear old, .read)
| (b, .read) =>
    match b.enrolled.readIn old with
    | none => (b, .rename)
    | some source => (b, .writeNew source)
| (b, .writeNew source) =>
    let record :=
      carryRecord old new source
        ((b.enrolled.readIn new).getD Record.blank)
    ({ b with enrolled := b.enrolled.recordIn new record },
      .indexNew record)
| (b, .indexNew record) =>
    ({ b with enrolled := b.enrolled.indexIn new record },
      .blankOld)
| (b, .blankOld) =>
    ({ b with
        enrolled :=
          b.enrolled.editIn old (fun _ => Record.blank) },
      .rename)
| (b, .rename) =>
    ({ b with
        instances :=
          Instances.rename old new now b.instances },
      .roster)
| (b, .roster) =>
    let channels := b.channels.renameRoster old new
    ({ b with channels := channels },
      .records channels.records)
| (b, .records []) => (b, .lastInbound)
| (b, .records (first :: rest)) =>
    ({ b with
        channels := b.channels.moveRecord old new first },
      .records rest)
| (b, .lastInbound) =>
    ({ b with
        lastInbound := moveFile old new b.lastInbound },
      .banner)
| (b, .banner) =>
    ({ b with banner := moveFile old new b.banner },
      .heartbeat)
| (b, .heartbeat) =>
    ({ b with heartbeats := b.heartbeats.erase old }, .done)
| (b, .done) => (b, .done)

/- What a move that stops after `n` steps leaves behind. -/
def stoppedAfter
    (old new : String)
    (now n : Nat)
    (b : Bus) : Bus :=
  ((moveStep old new now)^[n] (b, .load)).1

end Membership
