import AgentWays.Groups.Yaml
import AgentWays.Lib.StepMachine

/-
  The channel store: the state file and the directory of
  each channel.

  Every write of a manager loads the state from the file,
  edits it, and saves it whole. A channel's directory holds
  its messages, with the extension `signal`, and the records
  of invitations and briefings, named after their member.
  A manager acts for one member; each operation is taken as
  one step, since each holds the state lock throughout.

  Key definitions include:
    * `Groups.Store`
    * `Groups.join`, `Groups.create`, `Groups.add`
    * `Groups.leave`, `Groups.kick`, `Groups.unpin`
    * `Groups.cleanupStaleMoving`
    * `Groups.Action`
    * `Groups.machine`
-/

------------------------------------------------------------
-- The Store
------------------------------------------------------------

namespace Groups

open RustText

/- The files of one channel's directory, by name. -/
abbrev ChannelDir := KeyMap String String

/-
  The state file's text, when it can be read, and the
  directories `@name`, by channel name.
-/
structure Store where
  yaml : Option String
  dirs : KeyMap String ChannelDir
deriving DecidableEq

def Store.empty : Store :=
  { yaml := none
    dirs := KeyMap.empty }

/- `load_state`: a file that cannot be read has no channels. -/
def Store.loadState
    (s : Store) : GroupState :=
  match s.yaml with
  | some content => parseGroupsYaml content
  | none => KeyMap.empty

def Store.saveState
    (s : Store)
    (state : GroupState) : Store :=
  { s with yaml := some (serializeGroupsYaml state) }

/- `fs::create_dir_all` of a channel's directory. -/
def Store.createDir
    (s : Store)
    (name : String) : Store :=
  if (s.dirs.get? name).isSome then s
  else { s with dirs := s.dirs.insert name KeyMap.empty }

/- `fs::remove_dir_all` of a channel's directory. -/
def Store.removeDir
    (s : Store)
    (name : String) : Store :=
  { s with dirs := s.dirs.erase name }

/- The files of a channel's directory changed, if it is there. -/
def Store.editDir
    (s : Store)
    (name : String)
    (edit : ChannelDir → ChannelDir) : Store :=
  match s.dirs.get? name with
  | some dir => { s with dirs := s.dirs.insert name (edit dir) }
  | none => s

/- The extension of a pending invitation's record. -/
def inviteKind : String := "invite"

/- The extension of the record of a briefing. -/
def briefKind : String := "brief"

/- The record `<member>.<kind>`. -/
def recordFile
    (member kind : String) : String :=
  member ++ "." ++ kind

def Store.removeRecord
    (s : Store)
    (name member kind : String) : Store :=
  s.editDir name (fun dir => dir.erase (recordFile member kind))

/- A file whose extension is `signal`. -/
def isSignalFile
    (file : String) : Bool :=
  endsWith file ".signal" && file != ".signal"

/- The messages in a channel's directory. -/
def Store.signals
    (s : Store)
    (name : String) : List String :=
  match s.dirs.get? name with
  | some dir => dir.keys.filter isSignalFile
  | none => []

end Groups

------------------------------------------------------------
-- Making Channels
------------------------------------------------------------

namespace Groups

open RustText

/-
  Refuse to make a channel over the messages an earlier one
  left in its folder.
-/
def refuseLeftover
    (s : Store)
    (name : String) : Except String Unit :=
  let left := (s.signals name).length
  if left = 0 then .ok ()
  else
    let messages := if left = 1 then "message" else "messages"
    .error
      ("#" ++ name ++ " has " ++ toString left ++ " " ++
        messages ++
        " left on disk from an earlier channel; dissolve it first (attend channel dissolve " ++
        name ++ ")")

/- The entry with the member in it, and pinned if asked. -/
def joinEntry
    (member : String)
    (pin : Bool)
    (entry : GroupEntry) : GroupEntry :=
  { entry with
    members :=
      if entry.members.contains member then entry.members
      else entry.members ++ [member]
    pinned := if pin then true else entry.pinned }

def join
    (s : Store)
    (me name : String)
    (pin : Bool) : Store × Except String Unit :=
  match validateGroupName name with
  | .error e => (s, .error e)
  | .ok () =>
      let state := s.loadState
      let leftover :=
        if (state.get? name).isSome then .ok ()
        else refuseLeftover s name
      match leftover with
      | .error e => (s, .error e)
      | .ok () =>
          let entry :=
            joinEntry me pin
              ((state.get? name).getD GroupEntry.default)
          let s := s.saveState (state.insert name entry)
          let s := s.createDir name
          (s.removeRecord name me inviteKind, .ok ())

/- The description of a create, normalized when given. -/
def createDescription : Option String →
    Except String (Option String)
| some d => normalizeDescription d
| none => .ok none

def create
    (s : Store)
    (name : String)
    (description : Option String) :
    Store × Except String Unit :=
  match validateGroupName name with
  | .error e => (s, .error e)
  | .ok () =>
      match createDescription description with
      | .error e => (s, .error e)
      | .ok description =>
          let state := s.loadState
          if (state.get? name).isSome then
            (s, .error ("#" ++ name ++ " already exists"))
          else
            match refuseLeftover s name with
            | .error e => (s, .error e)
            | .ok () =>
                let s :=
                  s.saveState
                    (state.insert name
                      { pinned := true
                        members := []
                        description := description })
                (s.createDir name, .ok ())

/- Why an add refused. -/
inductive AddError where
| unknownChannel (name : String)
| alreadyMember (name : String)
| failed (text : String)

def AddError.display : AddError → String
| .unknownChannel name => "#" ++ name ++ ": unknown channel"
| .alreadyMember name => "already in #" ++ name
| .failed text => text

/-
  `admitted` is how the caller's own step ends: what it records
  for the member is a step of its own (`brief`).
-/
def add
    (s : Store)
    (name member : String)
    (admitted : Except String Unit) :
    Store × Except AddError Unit :=
  match validateGroupName name with
  | .error e => (s, .error (.failed e))
  | .ok () =>
      match validateMemberId member with
      | .error e => (s, .error (.failed e))
      | .ok () =>
          let state := s.loadState
          if !(state.get? name).isSome &&
              !(s.dirs.get? name).isSome then
            (s, .error (.unknownChannel name))
          else if (state.get? name).any
              (fun e => e.members.contains member) then
            (s, .error (.alreadyMember name))
          else
            let s := s.createDir name
            match admitted with
            | .error e => (s, .error (.failed e))
            | .ok () =>
                let entry :=
                  (state.get? name).getD GroupEntry.default
                let s :=
                  s.saveState
                    (state.insert name
                      { entry with
                        members := entry.members ++ [member] })
                (s.removeRecord name member inviteKind, .ok ())

end Groups

------------------------------------------------------------
-- Records
------------------------------------------------------------

namespace Groups

/- The body of a record: who wrote it and when. -/
def recordBody
    (me : String)
    (now : Nat) : String :=
  (if me.isEmpty then "" else "by: " ++ me ++ "\n") ++
    "at: " ++ toString now ++ "\n"

def writeRecord
    (s : Store)
    (me name member kind : String)
    (now : Nat) : Store × Except String Unit :=
  match validateGroupName name with
  | .error e => (s, .error e)
  | .ok () =>
      match validateMemberId member with
      | .error e => (s, .error e)
      | .ok () =>
          let s := s.createDir name
          (s.editDir name
            (fun dir =>
              dir.insert (recordFile member kind)
                (recordBody me now)),
            .ok ())

def invite
    (s : Store)
    (me name member : String)
    (now : Nat) : Store × Except String Unit :=
  writeRecord s me name member inviteKind now

def brief
    (s : Store)
    (me name member : String)
    (now : Nat) : Store × Except String Unit :=
  writeRecord s me name member briefKind now

/- `fs::rename` of one record within a directory. -/
def moveRecord
    (old new kind : String)
    (dir : ChannelDir) : ChannelDir :=
  match dir.get? (recordFile old kind) with
  | some body =>
      (dir.erase (recordFile old kind)).insert
        (recordFile new kind) body
  | none => dir

/- Every channel directory: one with a name after its `@`. -/
def channelDirs
    (s : Store) : List String :=
  s.dirs.keys.filter (fun name => !name.isEmpty)

/- Move `old`'s invitations and briefings to `new`. -/
def moveRecords
    (s : Store)
    (old new : String) : Store :=
  (channelDirs s).foldl
    (fun s name =>
      s.editDir name
        (fun dir =>
          moveRecord old new briefKind
            (moveRecord old new inviteKind dir)))
    s

end Groups

------------------------------------------------------------
-- Changing And Ending Channels
------------------------------------------------------------

namespace Groups

/- Every entry of the state changed. -/
def mapEntries
    (edit : GroupEntry → GroupEntry)
    (state : GroupState) : GroupState :=
  state.filterMap (fun _ e => some (edit e))

/- The entry without the member. -/
def dropMember
    (member : String)
    (entry : GroupEntry) : GroupEntry :=
  { entry with
    members := entry.members.filter (fun m => m ≠ member) }

/- A channel with no members that no pin keeps. -/
def isAbandoned
    (entry : GroupEntry) : Bool :=
  entry.members.isEmpty && !entry.pinned

/-
  Save the state, with the channel and its directory removed
  first when it is empty and unpinned.
-/
def saveWithout
    (s : Store)
    (state : GroupState)
    (name : String) : Store :=
  if (state.get? name).any isAbandoned then
    (s.removeDir name).saveState (state.erase name)
  else s.saveState state

/- The state with the channel's entry changed, if it has one. -/
def editEntry
    (state : GroupState)
    (name : String)
    (edit : GroupEntry → GroupEntry) : GroupState :=
  match state.get? name with
  | some entry => state.insert name (edit entry)
  | none => state

def setDescription
    (s : Store)
    (name text : String) : Store × Except String Unit :=
  match normalizeDescription text with
  | .error e => (s, .error e)
  | .ok normalized =>
      let state := s.loadState
      match state.get? name with
      | none => (s, .error ("#" ++ name ++ ": unknown group"))
      | some entry =>
          (s.saveState
            (state.insert name
              { entry with description := normalized }),
            .ok ())

def leave
    (s : Store)
    (me name : String) : Store × Except String Unit :=
  match validateGroupName name with
  | .error e => (s, .error e)
  | .ok () =>
      let state := editEntry s.loadState name (dropMember me)
      let s := s.removeRecord name me briefKind
      (saveWithout s state name, .ok ())

def kick
    (s : Store)
    (me name member : String) :
    Store × Except String Unit :=
  if isAgentMember me && !isAgentMember member then
    (s, .error "agents cannot kick a human member")
  else
    match validateGroupName name with
    | .error e => (s, .error e)
    | .ok () =>
        let state := s.loadState
        match state.get? name with
        | none =>
            (s, .error ("#" ++ name ++ ": unknown group"))
        | some entry =>
            let kept := dropMember member entry
            if kept.members.length = entry.members.length then
              (s,
                .error
                  (member ++ " is not a member of #" ++ name))
            else
              let s := s.removeRecord name member briefKind
              (saveWithout s (state.insert name kept) name,
                .ok ())

def pin
    (s : Store)
    (name : String) : Store :=
  let state := s.loadState
  match state.get? name with
  | some entry =>
      s.saveState
        (state.insert name { entry with pinned := true })
  | none => s

def unpin
    (s : Store)
    (name : String) : Store :=
  match validateGroupName name with
  | .error _ => s
  | .ok () =>
      let state :=
        editEntry s.loadState name
          (fun entry => { entry with pinned := false })
      saveWithout s state name

def dissolve
    (s : Store)
    (name : String) : Store × Except String (List String) :=
  match validateGroupName name with
  | .error e => (s, .error e)
  | .ok () =>
      let state := s.loadState
      let members :=
        ((state.get? name).map GroupEntry.members).getD []
      let s := s.saveState (state.erase name)
      (s.removeDir name, .ok members)

/- One entry's part of `rename_in`. -/
def renameEntry
    (old new : String)
    (entry : GroupEntry) : GroupEntry :=
  if entry.members.contains old then
    { entry with
      members :=
        entry.members.filter (fun m => m ≠ old && m ≠ new) ++
          [new] }
  else entry

/- Every membership of `old` moved, and whether any was. -/
def renameIn
    (state : GroupState)
    (old new : String) : GroupState × Bool :=
  (mapEntries (renameEntry old new) state,
    state.entries.any (fun e => e.2.members.contains old))

def renameMember
    (s : Store)
    (old new : String) : Store :=
  let state := renameIn s.loadState old new
  let s := if state.2 then s.saveState state.1 else s
  moveRecords s old new

end Groups

------------------------------------------------------------
-- The Sweep
------------------------------------------------------------

namespace Groups

/- Every member of any channel, once each, in order. -/
def memberIds
    (state : GroupState) : List String :=
  (KeyMap.ofList
    ((state.entries.flatMap (fun e => e.2.members)).map
      (fun m => (m, ())))).keys

/- The members that are not live and have a successor. -/
def movedMembers
    (isLive : String → Bool)
    (successor : String → Option String)
    (state : GroupState) : List (String × String) :=
  ((memberIds state).filter (fun sid => !isLive sid)).filterMap
    (fun sid => (successor sid).map (fun new => (sid, new)))

/- The members that are not live and have none. -/
def droppedMembers
    (isLive : String → Bool)
    (successor : String → Option String)
    (state : GroupState) : List String :=
  ((memberIds state).filter (fun sid => !isLive sid)).filter
    (fun sid => (successor sid).isNone)

/- The state with the moved renamed and the dropped gone. -/
def sweepMembers
    (moved : List (String × String))
    (dropped : List String)
    (state : GroupState) : GroupState :=
  mapEntries
    (fun entry =>
      { entry with
        members :=
          entry.members.filter
            (fun sid => !dropped.contains sid) })
    (moved.foldl
      (fun state p => (renameIn state p.1 p.2).1) state)

/- The channels the sweep removes. -/
def abandonedChannels
    (state : GroupState) : List String :=
  (state.entries.filter
    (fun e =>
      isAbandoned e.2 &&
        (validateGroupName e.1).toBool)).map Prod.fst

/- The directories past the grace that no entry names. -/
def orphanDirs
    (s : Store)
    (state : GroupState)
    (oldEnough : String → Bool) : List String :=
  s.dirs.keys.filter
    (fun name =>
      !name.isEmpty && !(state.get? name).isSome &&
        oldEnough name)

/-
  `oldEnough` says of each directory whether it was last
  changed longer ago than the grace.
-/
def cleanupStaleMoving
    (s : Store)
    (isLive : String → Bool)
    (successor : String → Option String)
    (oldEnough : String → Bool) : Store × List String :=
  let state := s.loadState
  let moved := movedMembers isLive successor state
  let dropped := droppedMembers isLive successor state
  let state := sweepMembers moved dropped state
  let s :=
    if !dropped.isEmpty || !moved.isEmpty then
      s.saveState state
    else s
  let s :=
    moved.foldl (fun s p => moveRecords s p.1 p.2) s
  let toRemove := abandonedChannels state
  let s := toRemove.foldl Store.removeDir s
  let state := toRemove.foldl KeyMap.erase state
  let s :=
    if !toRemove.isEmpty then s.saveState state else s
  let orphans := orphanDirs s state oldEnough
  (orphans.foldl Store.removeDir s, dropped)

end Groups

------------------------------------------------------------
-- Runs
------------------------------------------------------------

namespace Groups

/- What a manager can be asked to do. -/
inductive Action where
| join (name : String) (pin : Bool)
| create (name : String) (description : Option String)
| add (name member : String) (admitted : Except String Unit)
| leave (name : String)
| kick (name member : String)
| pin (name : String)
| unpin (name : String)
| setDescription (name text : String)
| renameMember (old new : String)
| dissolve (name : String)
| invite (name member : String) (now : Nat)
| brief (name member : String) (now : Nat)
| sweep
    (isLive : String → Bool)
    (successor : String → Option String)
    (oldEnough : String → Bool)

/- An operation, and the member it is done for. -/
structure Op where
  me : String
  action : Action

/- The members an operation returns, or its refusal. -/
abbrev Reply := Except String (List String)

/- A result that carries nothing. -/
def plain
    (r : Store × Except String Unit) : Store × Reply :=
  (r.1, r.2.map (fun _ => []))

/- A result whose refusal is shown as its text. -/
def shown
    (r : Store × Except AddError Unit) : Store × Reply :=
  (r.1, (r.2.mapError AddError.display).map (fun _ => []))

def step
    (s : Store)
    (op : Op) : Store × Reply :=
  match op.action with
  | .join name pin => plain (join s op.me name pin)
  | .create name description =>
      plain (create s name description)
  | .add name member admitted => shown (add s name member admitted)
  | .leave name => plain (leave s op.me name)
  | .kick name member => plain (kick s op.me name member)
  | .pin name => (pin s name, .ok [])
  | .unpin name => (unpin s name, .ok [])
  | .setDescription name text =>
      plain (setDescription s name text)
  | .renameMember old new => (renameMember s old new, .ok [])
  | .dissolve name => dissolve s name
  | .invite name member now =>
      plain (invite s op.me name member now)
  | .brief name member now =>
      plain (brief s op.me name member now)
  | .sweep isLive successor oldEnough =>
      let r := cleanupStaleMoving s isLive successor oldEnough
      (r.1, .ok r.2)

/- Runs of the channel store. -/
def machine : StepMachine Store Op Reply :=
  { step := step }

end Groups
