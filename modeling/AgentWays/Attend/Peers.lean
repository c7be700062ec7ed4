import AgentWays.Attend.Drain
import Mathlib.Data.Nat.Digits.Defs

/-
  The peers sensor of `attend run`: the poll that scans the
  same receive set as the drain and reports messages as
  lines.

  `PollEnv` is what one poll reads of the world. What it
  reports of peer sessions starting and ending is given by
  `presence`. Magnitudes are in quarters: every one of the
  source is a multiple of a quarter. A line carries the keys
  of the messages it shows.

  Key definitions include:
    * `Attend.PeerSensor`
    * `Attend.PollEnv`
    * `Attend.PeerSensor.scanSignals`
    * `Attend.PeerSensor.readSignals`
    * `Attend.PeerSensor.poll`
-/

------------------------------------------------------------
-- Handles And Ages
------------------------------------------------------------

namespace Attend

/- The UTF-16 code units of a character. -/
def utf16Units
    (c : Char) : List Nat :=
  if c.toNat < 0x10000 then [c.toNat]
  else
    [0xD800 + (c.toNat - 0x10000) / 0x400,
      0xDC00 + (c.toNat - 0x10000) % 0x400]

/- FNV-1a over 32 bits. -/
def fnv1a32
    (units : List Nat) : Nat :=
  units.foldl
    (fun h unit => ((h ^^^ unit) * 0x01000193) % 2 ^ 32)
    0x811c9dc5

/- A base-36 digit. -/
def digit36
    (n : Nat) : Char :=
  if n < 10 then Char.ofNat (48 + n) else Char.ofNat (87 + n)

/- The short handle a delivery line shows for a message. -/
def shortId
    (id : String) : String :=
  let digits :=
    (Nat.digits 36
      (fnv1a32 (id.toList.flatMap utf16Units))).map digit36
  let padded := digits ++ List.replicate (5 - digits.length) '0'
  String.ofList (padded.take 5).reverse

/- A body's words, one blank between two of them. -/
def oneLine
    (body : String) : String :=
  " ".intercalate
    (((body.toList.splitOnP RustText.isWhitespace).filter
      (fun word => !word.isEmpty)).map String.ofList)

/- A compact age, each unit rounded to the nearest. -/
def fmtAgo
    (secs : Nat) : String :=
  if secs < 90 then toString secs ++ "s"
  else if secs < 5400 then toString ((secs + 30) / 60) ++ "m"
  else if secs < 129600 then
    toString ((secs + 1800) / 3600) ++ "h"
  else toString ((secs + 43200) / 86400) ++ "d"

end Attend

------------------------------------------------------------
-- Lines
------------------------------------------------------------

namespace Attend

/- One line of a poll, with the messages it shows. -/
structure Observation where
  magnitude : Nat
  line : String
  shows : List String
deriving DecidableEq

/- A message to be reported by the current poll. -/
structure PendingMsg where
  magnitude : Nat
  sender : String
  cwd : String
  signalId : String
  body : String
  room : Room
  ageSecs : Nat
  key : String
deriving DecidableEq

def replyHint : String :=
  " (silence is a valid reply; to answer: " ++
    "attend message reply \"...\")"

def monitorLine
    (sender signalId body : String)
    (hint : Bool) : String :=
  "message from " ++ sender ++ " ~" ++ shortId signalId ++
    (if hint then replyHint else "") ++ ": " ++ oneLine body

/- More messages than this in one poll become a digest. -/
def digestThreshold : Nat := 8

/- One part of a digest, left out at no messages. -/
def digestPart
    (pending : List PendingMsg)
    (p : Room → Bool)
    (text : String) : List String :=
  let n := pending.countP (fun m => p m.room)
  if 0 < n then [toString n ++ text] else []

def Room.isOpen : Room → Bool
| .openRoom => true
| _ => false

/- One line that counts the messages of a flood. -/
def buildDigest
    (pending : List PendingMsg) : Observation where
  magnitude :=
    pending.foldl (fun m p => max m p.magnitude) 0
  line :=
    toString pending.length ++ " new messages: " ++
      ", ".intercalate
        (digestPart pending Room.isTray " to you" ++
          digestPart pending Room.isOpen " on #open" ++
          digestPart pending Room.isChannel " in groups") ++
      " (newest " ++
      fmtAgo
        (pending.foldl (fun a p => min a p.ageSecs)
          (2 ^ 64 - 1)) ++
      " ago, over " ++
      fmtAgo (pending.foldl (fun a p => max a p.ageSecs) 0) ++
      ") — attend message inbox for detail"
  shows := pending.map PendingMsg.key

end Attend

------------------------------------------------------------
-- The Sensor
------------------------------------------------------------

namespace Attend

/- The sensor's memory of messages. -/
structure PeerSensor where
  seenSignals : Finset String
  replyHintShown : Bool
  ownSessionId : Option String
  baselineEstablished : Bool
  holdingCold : Bool
  peerActivity : List (String × List Nat)
  checkpointLoaded : Bool
  messageBaselineDone : Bool

def PeerSensor.new
    (own : Option String) : PeerSensor where
  seenSignals := ∅
  replyHintShown := false
  ownSessionId := own
  baselineEstablished := false
  holdingCold := false
  peerActivity := []
  checkpointLoaded := false
  messageBaselineDone := false

/- What one poll reads of the world. -/
structure PollEnv where
  now : Nat
  instant : Nat
  dirs : List ReceiveDir
  current : List String
  previousIds : String → List String
  marks : Marks
  window : Window
  cacheLapsed : Bool
  activityWindow : Nat
  presence : List (Nat × String)
  senderLabel : String → String → String

/-
  The ids the session reads as: those of its identity now,
  and those of the id the sensor started under when that is
  not among them.
-/
def PeerSensor.readingIds
    (p : PeerSensor)
    (env : PollEnv) : List String :=
  let own := p.ownSessionId.getD "---none---"
  if own ∈ env.current then env.current
  else
    own :: env.current ++
      (p.ownSessionId.map env.previousIds).getD []

/-
  A state file's rows. The hint is not among those that are
  imported again at each poll.
-/
def PeerSensor.importState
    (p : PeerSensor)
    (seen : Finset String)
    (hint : Option Bool)
    (baselined : Bool) : PeerSensor :=
  { p with
    checkpointLoaded :=
      p.checkpointLoaded ||
        (!p.messageBaselineDone && baselined)
    seenSignals := p.seenSignals ∪ seen
    replyHintShown := hint.getD p.replyHintShown }

/- The mark the sensor exports with its seen-set. -/
def PeerSensor.baselined
    (p : PeerSensor) : Bool :=
  p.messageBaselineDone || p.checkpointLoaded

end Attend

------------------------------------------------------------
-- The Scan
------------------------------------------------------------

namespace Attend

open RustText

/- The files of the receive set, each with its room. -/
def receiveFiles
    (dirs : List ReceiveDir)
    (files : List SignalFile) : List (Room × SignalFile) :=
  dirs.flatMap
    (fun d =>
      (files.filter (fun f => f.dir = d.path)).map
        (fun f => (d.room, f)))

/-
  What the poll makes of one file. Unlike the drain it marks
  a file that reads as no signal.
-/
def pollVerdict
    (env : PollEnv)
    (ids : List String)
    (seen : Finset String)
    (room : Room)
    (f : SignalFile) : Verdict :=
  if !endsWith f.name ".signal" then .passed
  else if seenKey f.name ∈ seen then .passed
  else if env.marks.hides (seenKey f.name) then .passed
  else
    match readSignalFile f with
    | .error .fileTooLarge => .skipped (skipLine f)
    | .error .other => .passed
    | .ok content =>
        match parseSignal (wireLine content) with
        | none => .marked
        | some sig =>
            if env.marks.hidesSender sig.senderId f.mtime then
              .marked
            else if sig.isOwn ids then .marked
            else if room.isTray && !sig.trayReads ids then
              .marked
            else .found sig

/- One file visited: what it marks is seen from then on. -/
def pollVisit
    (env : PollEnv)
    (ids : List String)
    (acc : Finset String × List Found)
    (c : Room × SignalFile) : Finset String × List Found :=
  match pollVerdict env ids acc.1 c.1 c.2 with
  | .passed => acc
  | .skipped _ => (insert (seenKey c.2.name) acc.1, acc.2)
  | .marked => (insert (seenKey c.2.name) acc.1, acc.2)
  | .found sig => (acc.1, acc.2 ++ [⟨c.1, c.2, sig⟩])

/- A signal's id: its filename without the suffix. -/
def signalIdOf
    (filename : String) : String :=
  (stripSuffix filename ".signal").getD filename

/- Oldest first, then by send order and id. -/
def Found.sortKey
    (f : Found) : Nat ×ₗ (Nat ×ₗ Nat) ×ₗ String :=
  toLex
    (f.file.mtime,
      toLex
        (toLex (signalSendOrder (signalIdOf f.file.name)),
          signalIdOf f.file.name))

/- What a poll's scan of the signals comes to. -/
structure SignalScan where
  seen : Finset String
  found : List Found
  plan : Option Plan

def PeerSensor.scanSignals
    (p : PeerSensor)
    (env : PollEnv)
    (files : List SignalFile) : SignalScan :=
  let visited :=
    (receiveFiles env.dirs files).foldl
      (pollVisit env (p.readingIds env)) (p.seenSignals, [])
  let found :=
    visited.2.insertionSort (fun f g => f.sortKey ≤ g.sortKey)
  { seen := visited.1
    found := found
    plan :=
      -- The cold start: no scan yet, and no state restored.
      if !p.messageBaselineDone && !p.checkpointLoaded then
        some
          (Attend.plan
            (found.map
              (fun f => (f.room, env.now - f.file.mtime)))
            env.window)
      else none }

/- Each message found, and whether the plan shows it. -/
def SignalScan.answers
    (scan : SignalScan) : List (Found × Bool) :=
  match scan.plan with
  | none => scan.found.map (fun f => (f, true))
  | some plan => scan.found.zip plan.deliver

/- Something to be shown would wake the session. -/
def SignalScan.due
    (scan : SignalScan)
    (ids : List String) : Bool :=
  scan.answers.any
    (fun a =>
      a.2 &&
        a.1.sig.wakes a.1.room.isTray a.1.room.isChannel ids)

/- The poll emits: a message is due and the cache is warm. -/
def SignalScan.wakes
    (scan : SignalScan)
    (ids : List String)
    (cacheLapsed : Bool) : Bool :=
  scan.due ids && !cacheLapsed

/- The messages the poll surfaces. -/
def SignalScan.surfaced
    (scan : SignalScan)
    (ids : List String)
    (cacheLapsed : Bool) : List Found :=
  scan.answers.filterMap
    (fun a =>
      if a.2 && scan.wakes ids cacheLapsed then some a.1
      else none)

/- Those the cold start marks without showing. -/
def SignalScan.withheld
    (scan : SignalScan) : List Found :=
  scan.answers.filterMap
    (fun a => if a.2 then none else some a.1)

/- The number its note counts. -/
def SignalScan.notShown
    (scan : SignalScan) : Nat :=
  (scan.plan.map Plan.notShown).getD 0

end Attend

------------------------------------------------------------
-- The Poll
------------------------------------------------------------

namespace Attend

/- A room's magnitude before the boost. -/
def baseMagnitude : Room → Nat
| .project => 7
| .openRoom => 4
| .channel _ => 5

/- A sender's messages within the window, oldest first. -/
def recentOf
    (activity : List (String × List Nat))
    (env : PollEnv)
    (sender : String) : List Nat :=
  (((activity.find? (fun a => a.1 = sender)).map
    Prod.snd).getD []).dropWhile
      (fun t => decide (env.activityWindow < env.instant - t))

/- The boost of an active sender, in quarters. -/
def engagementBoost
    (messages : Nat) : Nat :=
  if messages ≤ 1 then 4
  else if messages = 2 then 7
  else 10

/- One surfaced message becomes pending and is counted. -/
def pushPending
    (env : PollEnv)
    (acc : List (String × List Nat) × List PendingMsg)
    (f : Found) :
    List (String × List Nat) × List PendingMsg :=
  let recent :=
    recentOf acc.1 env f.sig.fromField ++ [env.instant]
  ((f.sig.fromField, recent) ::
      acc.1.filter (fun a => decide (a.1 ≠ f.sig.fromField)),
    acc.2 ++
      [{ magnitude :=
          baseMagnitude f.room * engagementBoost recent.length
         sender := f.sig.fromField
         cwd := f.sig.cwd
         signalId := signalIdOf f.file.name
         body := f.sig.message
         room := f.room
         ageSecs := (env.now - f.file.mtime) / 10 ^ 9
         key := seenKey f.file.name }])

/- The lines of the messages, the first with the hint. -/
def messageLines
    (env : PollEnv)
    (hintShown : Bool) : List PendingMsg → List Observation
| [] => []
| m :: rest =>
    { magnitude := m.magnitude
      line :=
        monitorLine (env.senderLabel m.sender m.cwd) m.signalId
          m.body (!hintShown)
      shows := [m.key] } ::
      messageLines env true rest

/- The note's line, at the magnitude of the open room. -/
def noteLine
    (scan : SignalScan) : List Observation :=
  match (scan.plan.map Plan.note).getD none with
  | none => []
  | some note =>
      [{ magnitude := 16, line := note, shows := [] }]

/- The lines of one scan: the note, then the messages. -/
def readLines
    (env : PollEnv)
    (hintShown : Bool)
    (scan : SignalScan)
    (pending : List PendingMsg) : List Observation :=
  noteLine scan ++
    (if digestThreshold < pending.length then
      [buildDigest pending]
    else messageLines env hintShown pending)

def PeerSensor.readSignals
    (p : PeerSensor)
    (env : PollEnv)
    (files : List SignalFile) :
    PeerSensor × List Observation :=
  let scan := p.scanSignals env files
  let ids := p.readingIds env
  let surfaced := scan.surfaced ids env.cacheLapsed
  let pushed :=
    surfaced.foldl (pushPending env) (p.peerActivity, [])
  let digested := decide (digestThreshold < pushed.2.length)
  ({ p with
      seenSignals :=
        scan.seen ∪
          ((scan.withheld ++ surfaced).map
            (fun f => seenKey f.file.name)).toFinset
      replyHintShown :=
        p.replyHintShown || (!digested && !pushed.2.isEmpty)
      holdingCold := scan.due ids && env.cacheLapsed
      peerActivity := pushed.1
      messageBaselineDone := true },
    readLines env p.replyHintShown scan pushed.2)

/- The first poll only takes the baseline of the peers. -/
def PeerSensor.poll
    (p : PeerSensor)
    (env : PollEnv)
    (files : List SignalFile) :
    PeerSensor × List Observation :=
  if !p.baselineEstablished then
    ({ p with baselineEstablished := true }, [])
  else
    ((p.readSignals env files).1,
      env.presence.map
          (fun o =>
            { magnitude := o.1, line := o.2, shows := [] }) ++
        (p.readSignals env files).2)

end Attend
