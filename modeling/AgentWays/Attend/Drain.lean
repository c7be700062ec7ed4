import AgentWays.Lib.StepMachine
import AgentWays.Attend.Signal
import AgentWays.Attend.ColdStart
import Mathlib.Data.Finset.Basic
import Mathlib.Data.Finset.Filter
import Mathlib.Data.Finset.Dedup
import Mathlib.Data.Prod.Lex
import Mathlib.Data.String.Basic

/-
  The turn-boundary drain of one session's signals.

  A drain scans the session's receive directories, delivers
  what is unseen and records it in the seen-set. `DrainEnv`
  is what one run of it reads of the world: the clock, the
  session's identity and directories, the marks, and whether
  its files can be written. A directory's files are read in
  the order of the store, and a directory that cannot be
  listed is left out of `dirs`. Writes of the state file
  succeed, and it reads back as it was written.

  Key definitions include:
    * `Attend.SignalFile`
    * `Attend.Session`
    * `Attend.DrainEnv`
    * `Attend.scanPending`
    * `Attend.cmdInboxDrain`
    * `Attend.drainMachine`
-/

------------------------------------------------------------
-- Signal Files
------------------------------------------------------------

namespace Attend

open RustText

/- The largest signal file a reader loads: 256 KiB. -/
def maxSignalFileBytes : Nat := 256 * 1024

/- What a file holds: text, other bytes, or nothing to read. -/
inductive Content where
| unreadable
| binary (size : Nat)
| text (s : String)
deriving DecidableEq

structure SignalFile where
  dir : String
  name : String
  content : Content
  mtime : Nat
deriving DecidableEq

inductive ReadError where
| fileTooLarge
| other
deriving DecidableEq

def readSignalFile
    (f : SignalFile) : Except ReadError String :=
  match f.content with
  | .unreadable => .error .other
  | .binary size =>
      if maxSignalFileBytes < size then .error .fileTooLarge
      else .error .other
  | .text s =>
      if maxSignalFileBytes < s.utf8ByteSize then
        .error .fileTooLarge
      else .ok s

/- The seen-set key of a signal is its filename. -/
def seenKey
    (filename : String) : String :=
  filename

/- `Path::file_stem` of a signal's filename. -/
def fileStem
    (filename : String) : String :=
  if filename = ".signal" then filename
  else (stripSuffix filename ".signal").getD filename

/- The send order a signal id carries in its tail. -/
def signalSendOrder
    (id : String) : Nat × Nat :=
  let id := (stripSuffix id ".signal").getD id
  match (split id '-').reverse with
  | seq :: nanos :: _ :: _ =>
      match parseUnsigned 128 nanos, parseUnsigned 64 seq with
      | some n, some s => (n, s)
      | _, _ => (0, 0)
  | _ => (0, 0)

/- What the readers skip. -/
structure Marks where
  messages : List String
  sessions : List (String × Nat)
deriving DecidableEq

def Marks.hides
    (m : Marks)
    (key : String) : Bool :=
  decide (key ∈ m.messages)

/- A tombstoned sender's messages up to the tombstone. -/
def Marks.hidesSender
    (m : Marks)
    (sender : String)
    (sent : Nat) : Bool :=
  ((m.sessions.find? (fun s => s.1 = sender)).map
    (fun s => decide (sent ≤ s.2))).getD false

/- One directory a member reads signals from. -/
structure ReceiveDir where
  path : String
  room : Room
deriving DecidableEq

end Attend

------------------------------------------------------------
-- The State File
------------------------------------------------------------

namespace Attend

/-
  One session's signal store with its seen-set, whether the
  cold start has been applied, and the re-entry counter.
-/
structure Session where
  files : List SignalFile
  seen : Finset String
  baselined : Bool
  rounds : Nat

/-
  The shared write: the seen-set unioned with the file's,
  then pruned of keys whose signal is gone. Nothing is
  pruned when the signals cannot be listed.
-/
def Session.writeMerged
    (s : Session)
    (keys : List String)
    (baselined listable : Bool) : Session :=
  let union := s.seen ∪ keys.toFinset
  { s with
    seen :=
      if listable then
        union.filter
          (fun k => k ∈ s.files.map SignalFile.name)
      else union
    baselined := s.baselined || baselined }

/- Consumption recorded; no keys, no write. -/
def Session.markSeen
    (s : Session)
    (keys : List String)
    (listable : Bool) : Session :=
  if keys.isEmpty then s
  else s.writeMerged keys false listable

/- The cold start recorded, even with no keys. -/
def Session.baseline
    (s : Session)
    (keys : List String)
    (listable : Bool) : Session :=
  s.writeMerged keys true listable

end Attend

------------------------------------------------------------
-- The Scan
------------------------------------------------------------

namespace Attend

open RustText

/- How a drain prints what it delivered. -/
inductive DrainMode where
| plain
| hook
| json
deriving DecidableEq

/- What one drain reads of the world. -/
structure DrainEnv where
  mode : DrainMode
  wake : Bool
  resolved : Bool
  listening : Bool
  stopHookActive : Bool
  roundsWritable : Bool
  staleNoted : Bool
  listable : Bool
  cacheLapsed : Bool
  now : Nat
  dirs : List ReceiveDir
  ids : List String
  marks : Marks
  window : Window
  displayName : String
  compactTime : Nat → String
  senderLabel : String → String → String

/- One scanned pending message. -/
structure Drained where
  mtime : Nat
  when : String
  sender : String
  senderId : String
  scope : String
  room : Room
  id : String
  key : String
  re : Option String
  body : String
  sourceCwd : String
  wakes : Bool
deriving DecidableEq

/- What becomes of one signal file of the receive set. -/
inductive Verdict where
| passed
| skipped (line : String)
| marked
| found (sig : ParsedSignal)
deriving DecidableEq

/- The line that reports a file over the limit. -/
def skipLine
    (f : SignalFile) : String :=
  "[attend] skipped " ++ f.name ++
    ": signal file is over the 256 KiB read limit"

/-
  A signal that parsed: read and never shown if a tombstoned
  session or this one sent it, or if it sits in the tray for
  another session.
-/
def classifyParsed
    (env : DrainEnv)
    (room : Room)
    (f : SignalFile)
    (sig : ParsedSignal) : Verdict :=
  if env.marks.hidesSender sig.senderId f.mtime then .marked
  else if sig.isOwn env.ids then .marked
  else if room.isTray && !sig.trayReads env.ids then .marked
  else .found sig

def classify
    (env : DrainEnv)
    (seen : Finset String)
    (room : Room)
    (f : SignalFile) : Verdict :=
  if !endsWith f.name ".signal" then .passed
  else if seenKey f.name ∈ seen then .passed
  else if env.marks.hides (seenKey f.name) then .passed
  else
    match readSignalFile f with
    | .error .fileTooLarge => .skipped (skipLine f)
    | .error .other => .passed
    | .ok content =>
        match parseSignal (wireLine content) with
        | none => .passed
        | some sig => classifyParsed env room f sig

/- A message from another sender, with its room. -/
structure Found where
  room : Room
  file : SignalFile
  sig : ParsedSignal
deriving DecidableEq

def Drained.ofFound
    (env : DrainEnv)
    (f : Found) : Drained where
  mtime := f.file.mtime
  when := env.compactTime f.file.mtime
  sender := env.senderLabel f.sig.fromField f.sig.cwd
  senderId := f.sig.fromField
  scope := roomLabel f.room
  room := f.room
  id := fileStem f.file.name
  key := seenKey f.file.name
  re := f.sig.replyTo
  body := f.sig.message
  sourceCwd := f.sig.cwd
  wakes :=
    f.sig.wakes f.room.isTray f.room.isChannel env.ids

/- The files of the receive set, each with its room. -/
def candidates
    (env : DrainEnv)
    (files : List SignalFile) : List (Room × SignalFile) :=
  env.dirs.flatMap
    (fun d =>
      (files.filter (fun f => f.dir = d.path)).map
        (fun f => (d.room, f)))

/- What one drain scan found. -/
structure Scan where
  delivered : List Drained
  mark : List String
  note : Option String
  heldBack : Nat
  skipped : List String

/- The messages from others that are pending. -/
def foundIn
    (env : DrainEnv)
    (s : Session) : List Found :=
  (candidates env s.files).filterMap
    (fun c =>
      match classify env s.seen c.1 c.2 with
      | .found sig => some ⟨c.1, c.2, sig⟩
      | _ => none)

/- The cold start's plan for the messages found. -/
def coldPlan
    (env : DrainEnv)
    (s : Session) : Plan :=
  plan
    ((foundIn env s).map
      (fun f => (f.room, env.now - f.file.mtime)))
    env.window

/- Which of the messages found are to be delivered. -/
def deliverable
    (env : DrainEnv)
    (s : Session) : List (Found × Bool) :=
  if s.baselined then
    (foundIn env s).map (fun f => (f, true))
  else (foundIn env s).zip (coldPlan env s).deliver

def scanPending
    (env : DrainEnv)
    (s : Session) : Scan where
  delivered :=
    (deliverable env s).filterMap
      (fun p =>
        if p.2 then some (Drained.ofFound env p.1) else none)
  mark :=
    (candidates env s.files).filterMap
        (fun c =>
          match classify env s.seen c.1 c.2 with
          | .skipped _ => some (seenKey c.2.name)
          | .marked => some (seenKey c.2.name)
          | _ => none) ++
      (foundIn env s).map (fun f => seenKey f.file.name)
  note := if s.baselined then none else (coldPlan env s).note
  heldBack :=
    if s.baselined then 0 else (coldPlan env s).notShown
  skipped :=
    (candidates env s.files).filterMap
      (fun c =>
        match classify env s.seen c.1 c.2 with
        | .skipped line => some line
        | _ => none)

end Attend

------------------------------------------------------------
-- The Drain
------------------------------------------------------------

namespace Attend

def maxDrainRounds : Nat := 5

def drainRenderMax : Nat := 10

/- How a drain ended. -/
inductive DrainStatus where
| unresolved
| notListening
| deferred
| drained
deriving DecidableEq

/-
  What a drain printed: the messages shown in full, those
  only counted, the held-back note and the skipped files.
-/
structure DrainOut where
  status : DrainStatus
  shown : List Drained
  unshown : List Drained
  note : Option String
  heldBack : Nat
  youAre : Option String
  cacheLapsed : Bool
  skipped : List String

/- Every message a drain delivered. -/
def DrainOut.delivered
    (out : DrainOut) : List Drained :=
  out.shown ++ out.unshown

/- A drain that delivers nothing and marks nothing. -/
def DrainOut.nothing
    (status : DrainStatus) : DrainOut where
  status := status
  shown := []
  unshown := []
  note := none
  heldBack := 0
  youAre := none
  cacheLapsed := false
  skipped := []

/- Oldest first, then by send order and id. -/
def Drained.sortKey
    (d : Drained) : Nat ×ₗ (Nat ×ₗ Nat) ×ₗ String :=
  toLex (d.mtime, toLex (toLex (signalSendOrder d.id), d.id))

/- The round this drain is, and the counter it leaves. -/
def bumpDrainRounds
    (s : Session)
    (env : DrainEnv)
    (stopActive : Bool) : Session × Option Nat :=
  let rounds := if stopActive then s.rounds + 1 else 1
  if env.roundsWritable then
    ({ s with rounds := rounds }, some rounds)
  else (s, none)

/- A wake drain that found a message to wake for. -/
def Scan.due
    (scan : Scan)
    (env : DrainEnv) : Bool :=
  env.wake && scan.delivered.any Drained.wakes

/- One whose session's prompt cache has lapsed. -/
def Scan.lapsed
    (scan : Scan)
    (env : DrainEnv) : Bool :=
  scan.due env && env.cacheLapsed

/- What the scan found waits for the next turn. -/
def Scan.held
    (scan : Scan)
    (env : DrainEnv) : Bool :=
  env.wake && (!scan.due env || scan.lapsed env)

/- The keys to record: what waits is left out. -/
def Scan.recorded
    (scan : Scan)
    (env : DrainEnv) : List String :=
  if scan.held env then
    scan.mark.filter
      (fun k =>
        decide (k ∉ scan.delivered.map Drained.key))
  else scan.mark

/- The messages that go out, in order. -/
def Scan.outgoing
    (scan : Scan)
    (env : DrainEnv) : List Drained :=
  if scan.held env then []
  else
    scan.delivered.insertionSort
      (fun d e => d.sortKey ≤ e.sortKey)

/- The state after a drain past its gates. -/
def recordDrain
    (s : Session)
    (env : DrainEnv)
    (scan : Scan) : Session :=
  let s' :=
    if env.mode = .hook ∧ env.staleNoted = true then
      s.writeMerged [] false env.listable
    else s
  let s' :=
    if (scan.outgoing env).isEmpty then { s' with rounds := 0 }
    else s'
  if s.baselined then
    s'.markSeen (scan.recorded env) env.listable
  else s'.baseline (scan.recorded env) env.listable

/- What it prints. -/
def printDrain
    (s : Session)
    (env : DrainEnv)
    (scan : Scan) : DrainOut :=
  let delivered := scan.outgoing env
  { status := .drained
    shown :=
      if env.mode = .hook then delivered.take drainRenderMax
      else delivered
    unshown :=
      if env.mode = .hook then delivered.drop drainRenderMax
      else []
    note := scan.note
    heldBack := scan.heldBack
    youAre :=
      if s.baselined then none else some env.displayName
    cacheLapsed := scan.lapsed env
    skipped := scan.skipped }

/- What a drain past its gates does. -/
def drainPending
    (s : Session)
    (env : DrainEnv) : Session × DrainOut :=
  let scan := scanPending env s
  (recordDrain s env scan, printDrain s env scan)

def cmdInboxDrain
    (s : Session)
    (env : DrainEnv) : Session × DrainOut :=
  if !env.resolved then (s, .nothing .unresolved)
  else if !env.listening then (s, .nothing .notListening)
  else
    let stopActive :=
      decide (env.mode = .hook) && env.stopHookActive
    match bumpDrainRounds s env stopActive with
    | (s', some rounds) =>
        if maxDrainRounds < rounds then
          (s', .nothing .deferred)
        else drainPending s' env
    | (s', none) =>
        if stopActive then (s', .nothing .deferred)
        else drainPending s' env

end Attend

------------------------------------------------------------
-- Runs
------------------------------------------------------------

namespace Attend

/- What happens to a session's signals. -/
inductive Event where
| arrive (f : SignalFile)
| drain (env : DrainEnv)

/- Arrivals and whole drains, in any order. -/
def drainMachine :
    StepMachine Session Event (Option DrainOut) where
  step s event :=
    match event with
    | .arrive f => ({ s with files := s.files ++ [f] }, none)
    | .drain env =>
        ((cmdInboxDrain s env).1, some (cmdInboxDrain s env).2)

end Attend
