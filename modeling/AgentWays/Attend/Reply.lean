import AgentWays.Attend.Peers
import AgentWays.Groups.Yaml
import AgentWays.Instances.Registry
import AgentWays.Sessions.AttendKey

/-
  A reply: the message it answers, the room that was said in,
  and the directory the reply is written to.

  The room is told by the parent's file in the receive set,
  then by the channel directory that holds it, then by the
  record of the last message delivered. A recorded id that is
  no signal id cannot be looked up and goes by its record.

  Directories are named below the signals base. `ReplyEnv` is
  what one reply reads of the world: the session, the files,
  the channels, the live peers and the registries.

  Key definitions include:
    * `Attend.SendRequest`
    * `Attend.SendError`
    * `Attend.Dest`
    * `Attend.parentDest`
    * `Attend.senderDest`
    * `Attend.reply`
-/

------------------------------------------------------------
-- Requests And Refusals
------------------------------------------------------------

namespace Attend

open RustText

structure SendRequest where
  message : String
  toField : Option String
  channel : Option String
  re : Option String
deriving DecidableEq

/- A live peer, as a refusal lists it. -/
structure PeerAt where
  cwd : String
  project : String
deriving DecidableEq

structure ChannelCount where
  name : String
  members : Nat
  pinned : Bool
deriving DecidableEq

inductive SendError where
| invalidReId
| emptyMessage
| tooLong (bytes max : Nat)
| noPeerAt
    (path : String)
    (peers : List PeerAt)
    (suggestion : Option String)
| noRecipient (name : String) (sessions : List String)
| ambiguousRecipient (name : String) (candidates : List String)
| notInChannel (name channel : String)
| senderExited (session name : String)
| ownProject (path : String)
| noChannel (name : String) (channels : List ChannelCount)
| noLivePeers
    (name : String)
    (onlySelf : Bool)
    (channels : List ChannelCount)
| noInbound
| unknownHandle (handle : String)
| parentChannelLeft (channel : String)
| parentChannelGone (channel : String)
| parentRoomUnknown
| notWritten (error : String)
deriving DecidableEq

/- Where an inbound message was said. -/
inductive Said where
| openRoom
| channel (name : String)
| project (cwd : Option String)
deriving DecidableEq

/- The newest inbound signal surfaced to a session. -/
structure LastInbound where
  id : String
  said : Option Said
  fromField : Option String
deriving DecidableEq

/- Where a message goes, with the `to` it carries. -/
inductive Dest where
| openRoom (toField : Option String)
| channel (name : String) (toField : Option String)
| sessions (cwd : String) (ids : List String)
| person (member : String)
deriving DecidableEq

inductive Threading where
| threaded
| unthreaded
deriving DecidableEq

structure Sent where
  id : String
  scope : String
  toField : String
  re : Option String
deriving DecidableEq

end Attend

------------------------------------------------------------
-- What A Reply Reads
------------------------------------------------------------

namespace Attend

open RustText

def broadcastDir : String := "_broadcast"

/- The directory of a named channel. -/
def groupDir
    (name : String) : String :=
  "@" ++ name

def personDir
    (member : String) : String :=
  "_people/" ++ member

/-
  The files below the signals base, and its directories as a
  listing gives them: every channel's that holds a file.
-/
structure SignalsBase where
  files : List SignalFile
  dirs : List String
  listed :
    ∀ f ∈ files, ∀ name,
      name ≠ "" → f.dir = groupDir name → f.dir ∈ dirs

/- A live peer as the peers sensor lists it. -/
structure Peer where
  id : String
  cwd : String
  project : String
deriving DecidableEq

/- The session as it sends. -/
structure Actor where
  memberId : String
  kind : String
  fromField : String
  senderId : String
  project : String
  cwd : String
deriving DecidableEq

structure ReplyEnv where
  sessionId : String
  sessionResolved : Bool
  originPath : String
  actor : Actor
  base : SignalsBase
  state : Groups.GroupState
  last : Option LastInbound
  peers : List Peer
  alive : String → Bool
  rows : String → Instances.Rows
  nickname : String → String
  canonicalize : String → Option String
  user : String
  trays : List String
  nanos : Nat
  seq : Nat
  writeError : String → Option String

variable (env : ReplyEnv)

/- `Path::is_file` of a file in a directory. -/
def ReplyEnv.isFile
    (dir file : String) : Bool :=
  env.base.files.any (fun f => f.dir = dir && f.name = file)

def ReplyEnv.members
    (name : String) : Option (List String) :=
  (env.state.get? name).map Groups.GroupEntry.members

def ReplyEnv.joinedGroupNames : List String :=
  (env.state.entries.filter
    (fun e => decide (env.sessionId ∈ e.2.members))).map Prod.fst

def ReplyEnv.allGroups : List ChannelCount :=
  env.state.entries.map
    (fun e => ⟨e.1, e.2.members.length, e.2.pinned⟩)

/- `receive_dirs`: the tray, `#open`, each joined channel. -/
def ReplyEnv.receiveDirs : List ReceiveDir :=
  ⟨Sessions.attendKey env.originPath, .project⟩ ::
    ⟨broadcastDir, .openRoom⟩ ::
      (env.joinedGroupNames.filter
        (fun n => (Groups.validateGroupName n).isOk)).map
          (fun n => ⟨groupDir n, .channel n⟩)

/- The channel whose directory holds a file, joined or not. -/
def ReplyEnv.channelHolding
    (file : String) : Option String :=
  env.base.dirs.findSome?
    (fun dir =>
      (stripPrefix dir "@").bind
        (fun name =>
          if name ≠ "" ∧ env.isFile dir file = true then
            some name
          else none))

structure LiveSession where
  id : String
  cwd : String
  nickname : String
  name : String
deriving DecidableEq

/- `names`: a session's nickname, and with its instance. -/
def ReplyEnv.names
    (cwd : String)
    (instanceName : Option String) : String × String :=
  let nickname := env.nickname cwd
  match instanceName with
  | some i => (nickname, nickname ++ "-" ++ i)
  | none => (nickname, nickname)

/- `Registry::lookup` of a session. -/
def ReplyEnv.lookup
    (cwd id : String) : Option String :=
  ((env.rows cwd).get? id).map
    Instances.InstanceEntry.instanceName

def ReplyEnv.liveSessions : List LiveSession :=
  env.peers.map
    (fun p =>
      let both := env.names p.cwd (env.lookup p.cwd p.id)
      ⟨p.id, p.cwd, both.1, both.2⟩)

end Attend

------------------------------------------------------------
-- Destinations
------------------------------------------------------------

namespace Attend

open RustText

variable (env : ReplyEnv)

/- The largest message a writer sends. -/
def maxMessageBytes : Nat := 64 * 1024

/- Refuse what no route can carry. -/
def check
    (req : SendRequest) : Except SendError Unit :=
  if req.re.any (fun id => !isValidSignalId id) then
    .error .invalidReId
  else if req.message = "" then .error .emptyMessage
  else if maxMessageBytes < req.message.utf8ByteSize then
    .error (.tooLong req.message.utf8ByteSize maxMessageBytes)
  else .ok ()

/- Refuse a channel no live peer would read. -/
def checkChannel
    (name : String) : Except SendError Unit :=
  let isSelf := fun sid =>
    env.sessionResolved && decide (sid = env.sessionId)
  let live :=
    ((env.members name).getD []).filter
      (fun sid => env.alive sid && !isSelf sid)
  if !live.isEmpty then .ok ()
  else
    match env.members name with
    | none => .error (.noChannel name env.allGroups)
    | some ids =>
        .error (.noLivePeers name (ids.any isSelf) env.allGroups)

/- How many trailing segments two paths share. -/
def commonTail : List String → List String → Nat
| a :: as, b :: bs => if a = b then commonTail as bs + 1 else 0
| _, _ => 0

/- The first peer path that shares the most segments. -/
def findClosestPeer
    (target : String)
    (peers : List String) : Option String :=
  (peers.foldl
    (fun best peer =>
      let common :=
        commonTail (split target '/').reverse
          (split peer '/').reverse
      match best with
      | none => if 0 < common then some (peer, common) else none
      | some (p, n) =>
          if n < common then some (peer, common) else some (p, n))
    (none : Option (String × Nat))).map Prod.fst

/- A project path: every live session working there. -/
def resolveProject
    (path : String) : Except SendError Dest :=
  let resolved := (env.canonicalize path).getD path
  let ids :=
    (env.peers.filter (fun p => p.cwd = resolved)).map Peer.id
  let own :=
    (env.canonicalize env.originPath).getD env.originPath
  if !ids.isEmpty then .ok (.sessions resolved ids)
  else if resolved = own ∨ resolved = env.originPath then
    .error (.ownProject resolved)
  else
    .error
      (.noPeerAt resolved
        (env.peers.map (fun p => ⟨p.cwd, p.project⟩))
        (findClosestPeer resolved (env.peers.map Peer.cwd)))

def isProjectPath
    (toField : String) : Bool :=
  toField.toList.any (fun c => c = '/' || c = '\\') ||
    toField.toList.head?.any (fun c => c = '.' || c = '~')

/- The people known by member id, sorted, each once. -/
def ReplyEnv.knownPeople : List String :=
  ((sanitizeIdComponent env.user :: env.trays ++
    env.state.entries.flatMap
      (fun e =>
        e.2.members.filter
          (fun m => !Groups.isAgentMember m))).dedup).insertionSort
            (· ≤ ·)

def resolveRecipient
    (name : String) : Except SendError Dest :=
  let toField := trim name
  if isProjectPath toField then resolveProject env toField
  else
    let sessions := env.liveSessions
    match sessions.find? (fun s => s.id = toField) with
    | some s => .ok (.sessions s.cwd [s.id])
    | none =>
        let matched :=
          sessions.filter
            (fun s =>
              s.id = toField || eqIgnoreAsciiCase s.name toField ||
                eqIgnoreAsciiCase s.nickname toField)
        let person :=
          env.knownPeople.find? (fun p => eqIgnoreAsciiCase p toField)
        match matched, person with
        | [one], none => .ok (.sessions one.cwd [one.id])
        | [], some p => .ok (.person p)
        | [], none =>
            .error
              (.noRecipient toField (sessions.map LiveSession.name))
        | many, person =>
            .error
              (.ambiguousRecipient toField
                (many.map
                    (fun s =>
                      s.name ++ " (session " ++ s.id ++ ")") ++
                  (person.map
                    (fun p => p ++ " (person)")).toList))

/- Who a direct destination is for. -/
def Dest.addressee : Dest → String
| .sessions _ ids => String.intercalate "," ids
| .person member => member
| .openRoom toField => toField.getD ""
| .channel _ toField => toField.getD ""

/- The destination of a post in `channel`. -/
def resolveChannel
    (channel : String)
    (named toField : Option String) : Except SendError Dest :=
  let name :=
    String.ofList
      ((trim channel).toList.dropWhile
        (fun c => c = '#' || c = '@'))
  if name = "open" then .ok (.openRoom toField)
  else
    match checkChannel env name with
    | .error e => .error e
    | .ok () =>
        match toField, named with
        | some ids, some n =>
            if (split ids ',').any
                (fun id =>
                  !decide (id ∈ (env.members name).getD [])) then
              .error (.notInChannel (trim n) name)
            else .ok (.channel name toField)
        | _, _ => .ok (.channel name toField)

/- The destination a request names, else `#open`. -/
def resolve
    (req : SendRequest) : Except SendError Dest :=
  match req.channel, req.toField with
  | some channel, none => resolveChannel env channel none none
  | some channel, some toField =>
      match resolveRecipient env toField with
      | .error e => .error e
      | .ok d =>
          resolveChannel env channel (some toField) (some d.addressee)
  | none, some toField => resolveRecipient env toField
  | none, none => .ok (.openRoom none)

end Attend

------------------------------------------------------------
-- The Parent Of A Reply
------------------------------------------------------------

namespace Attend

open RustText

variable (env : ReplyEnv)

inductive SenderKind where
| human
| agent
deriving DecidableEq

structure Sender where
  id : String
  kind : Option SenderKind
  cwd : Option String
deriving DecidableEq

/- The kind a wire `from` tells. -/
def kindOfFrom
    (fromField : String) : Option SenderKind :=
  if startsWith fromField "claude:" then some .agent
  else if startsWith fromField "external:" then some .human
  else none

def ParsedSignal.senderKind
    (sig : ParsedSignal) : Option SenderKind :=
  if sig.fromKind = some "human" then some .human
  else if sig.fromKind = some "agent" then some .agent
  else kindOfFrom sig.fromField

def Sender.of
    (sig : ParsedSignal) : Sender where
  id := sig.senderId
  kind := sig.senderKind
  cwd := (some sig.cwd).filter (fun c => c ≠ "")

/- From a wire `from` alone, as the record keeps it. -/
def Sender.ofFrom
    (fromField : String) : Sender where
  id := derivedSenderId fromField
  kind := kindOfFrom fromField
  cwd := none

/- Whether an id can name a person tray. -/
def isMemberId
    (id : String) : Bool :=
  decide (id ≠ "") && id.toList.head? != some '-' &&
    id.toList.getLast? != some '-' &&
    decide (sanitizeIdComponent id = id)

/- A direct message to the sender, refused once it exited. -/
def senderDest
    (sender : Sender) : Except SendError Dest :=
  match sender.kind with
  | some .human =>
      if isMemberId sender.id then .ok (.person sender.id)
      else .error .parentRoomUnknown
  | some .agent =>
      let successor :=
        sender.cwd.bind
          (fun cwd => Instances.chainEnd (env.rows cwd) sender.id)
      let live :=
        ([some sender.id, successor].filterMap id).findSome?
          (fun id => env.liveSessions.find? (fun s => s.id = id))
      match live with
      | some s => .ok (.sessions s.cwd [s.id])
      | none =>
          let name :=
            match sender.cwd with
            | some cwd =>
                (env.names cwd (env.lookup cwd sender.id)).2
            | none =>
                "session " ++
                  String.ofList (sender.id.toList.take 8)
          .error (.senderExited sender.id name)
  | none => .error .parentRoomUnknown

/- The parent's channel, while this session is in it. -/
def channelDest
    (channel : String)
    (sender : Option Sender) : Except SendError Dest :=
  if env.members channel = none then
    .error (.parentChannelGone channel)
  else if channel ∉ env.joinedGroupNames then
    .error (.parentChannelLeft channel)
  else
    match checkChannel env channel with
    | .error e => .error e
    | .ok () => .ok (.channel channel (sender.map Sender.id))

/- The signal a file of the receive set holds, if it reads. -/
def ReplyEnv.signalAt
    (dir file : String) : Option ParsedSignal :=
  (env.base.files.find?
    (fun f => f.dir = dir && f.name = file)).bind
      (fun f =>
        match readSignalFile f with
        | .error _ => none
        | .ok content => parseSignal (wireLine content))

def Said.ofRoom : Room → Said
| .channel name => .channel name
| .openRoom => .openRoom
| .project => .project none

/- Where the reply to a known room and sender goes. -/
def saidDest
    (room : Option Said)
    (sender : Option Sender) : Except SendError Dest :=
  match room, sender with
  | some (.channel channel), sender =>
      channelDest env channel sender
  | some _, some sender => senderDest env sender
  | _, _ => .error .parentRoomUnknown

/- A parent whose file is gone goes by what was recorded. -/
def recordedDest
    (recorded : Option LastInbound) : Except SendError Dest :=
  match recorded with
  | none => .error .parentRoomUnknown
  | some rec =>
      match rec.fromField, rec.said with
      | none, some (.project (some cwd)) =>
          resolveProject env cwd
      | fromField, said =>
          saidDest env said (fromField.map Sender.ofFrom)

/- `parent_dest`: where the reply to parent `id` goes. -/
def parentDest
    (id : Option String)
    (recorded : Option LastInbound) : Except SendError Dest :=
  match id with
  | none => recordedDest env recorded
  | some id =>
      let file := id ++ ".signal"
      match
        env.receiveDirs.find? (fun d => env.isFile d.path file)
      with
      | some d =>
          saidDest env (some (Said.ofRoom d.room))
            ((env.signalAt d.path file).map Sender.of)
      | none =>
          match env.channelHolding file with
          | some channel =>
              channelDest env channel
                ((recorded.bind LastInbound.fromField).map
                  Sender.ofFrom)
          | none => recordedDest env recorded

end Attend

------------------------------------------------------------
-- Replies
------------------------------------------------------------

namespace Attend

open RustText

variable (env : ReplyEnv)

/- Whether `s` has a short handle's shape. -/
def isShortId
    (s : String) : Bool :=
  decide (s.utf8ByteSize = 5) &&
    s.toList.all (fun c => c.isDigit || c.isLower)

/- The newest file of the directories with a handle. -/
def newestWithHandle
    (dirs : List String)
    (handle : String) : Option String :=
  ((dirs.flatMap
    (fun dir => env.base.files.filter (fun f => f.dir = dir))).foldl
      (fun best f =>
        match stripSuffix f.name ".signal" with
        | none => best
        | some id =>
            if shortId id ≠ handle then best
            else
              match best with
              | none => some (f.mtime, id)
              | some (t, old) =>
                  if t < f.mtime then some (f.mtime, id)
                  else some (t, old))
      (none : Option (Nat × String))).map Prod.snd

def resolveShortId
    (handle : String) : Option String :=
  (newestWithHandle env (env.receiveDirs.map ReceiveDir.path)
    handle).or
      (newestWithHandle env
        (env.base.dirs.filter (fun d => startsWith d "@"))
        handle)

/- The full id `re` names. -/
def resolveRe
    (re : String) : Except SendError String :=
  let re := (stripPrefix re "~").getD re
  if !isShortId re then .ok re
  else
    match resolveShortId env re with
    | some id => .ok id
    | none => .error (.unknownHandle re)

/- The id to thread under, and the record to go by. -/
def replyTarget
    (req : SendRequest) :
    Except SendError
      (Option String × Threading × Option LastInbound) :=
  match req.re with
  | some re =>
      match resolveRe env re with
      | .ok id => .ok (some id, .threaded, none)
      | .error e => .error e
  | none =>
      match env.last with
      | none => .error .noInbound
      | some l =>
          if isValidSignalId l.id then
            .ok (some l.id, .threaded, some l)
          else .ok (none, .unthreaded, some l)

/- The directory of a destination, its scope and its `to`. -/
def Dest.tray : Dest → String × String × String
| .openRoom toField => (broadcastDir, "#open", toField.getD "*")
| .channel name toField =>
    (groupDir name, "channel", toField.getD ("#" ++ name))
| .sessions cwd ids =>
    (Sessions.attendKey cwd, "directed",
      String.intercalate "," ids)
| .person member => (personDir member, "directed", member)

/- A reply written: the file, and what is said of it. -/
structure Replied where
  sent : Sent
  threading : Threading
  dir : String
  name : String
  content : String
deriving DecidableEq

/- The message written to `dest`. -/
def write
    (dest : Dest)
    (threading : Threading)
    (req : SendRequest) : Except SendError Replied :=
  let tray := dest.tray
  let filename :=
    signalFilename env.actor.senderId env.nanos env.seq
  let content :=
    formatTagged env.actor.fromField env.actor.project
      env.actor.cwd
      { fromKind := some env.actor.kind
        fromId := some env.actor.memberId
        onBehalfOf := none
        toField := some tray.2.2 }
      req.re req.message
  match env.writeError tray.1 with
  | some e => .error (.notWritten (tray.1 ++ ": " ++ e))
  | none =>
      .ok
        { sent :=
            { id := signalIdOf filename
              scope := tray.2.1
              toField := tray.2.2
              re := req.re }
          threading := threading
          dir := tray.1
          name := filename
          content := content }

/- `reply`: the parent's room, unless the request names one. -/
def reply
    (req : SendRequest) : Except SendError Replied :=
  if req.message = "" then .error .emptyMessage
  else
    match replyTarget env req with
    | .error e => .error e
    | .ok (re, threading, recorded) =>
        let req := { req with re := re }
        match check req with
        | .error e => .error e
        | .ok () =>
            let dest :=
              if req.toField.isSome || req.channel.isSome then
                resolve env req
              else parentDest env req.re recorded
            match dest with
            | .error e => .error e
            | .ok dest => write env dest threading req

end Attend
