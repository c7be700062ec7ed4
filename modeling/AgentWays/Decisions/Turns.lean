import AgentWays.Fmt.When
import AgentWays.Lib.Interner
import AgentWays.Lib.KeyMap
import Mathlib.Data.String.Basic

/-
  The decision log's reader: the record stream grouped into
  turns, and each pull judged as it arrives.

  Names are interned, and the hash maps whose order nothing
  depends on are lists and maps with ordered keys. Seconds
  are those of an `u64`.

  Key definitions include:
    * `Decisions.Clock`
    * `Decisions.Turns`
    * `Decisions.Turns.push`
    * `Decisions.Turns.join`
    * `Decisions.group`
-/

------------------------------------------------------------
-- Records
------------------------------------------------------------

namespace Decisions

/- What became of one way that a scan matched. -/
structure Outcome where
  way : String
  result : String
deriving DecidableEq

structure Scan where
  ts : String
  scanId : String
  session : String
  agent : String
  turnStart : Bool
  project : String
  outcomes : List Outcome
deriving DecidableEq

structure Pull where
  ts : String
  session : String
  agent : String
  way : String
  scanId : Option String
deriving DecidableEq

inductive Record
| scan (s : Scan)
| pull (p : Pull)
deriving DecidableEq

def Record.ts : Record → String
| .scan s => s.ts
| .pull p => p.ts

/- A turn: its first scan, and the later ones it was given. -/
structure Turn where
  ordinal : Nat
  start : Scan
  scans : List Scan
deriving DecidableEq

inductive Join
| delivered
| recallMiss
| noScanId
| unknown
deriving DecidableEq

/- A pull with its verdict, its scan's turn and project. -/
structure Joined where
  pull : Pull
  join : Join
  turn : Option Nat
  project : Option String
deriving DecidableEq

/- What the grouper hands on. -/
inductive Grouped
| turn (t : Turn)
| orphan (s : Scan)
| pull (j : Joined)
deriving DecidableEq

end Decisions

------------------------------------------------------------
-- The Grouper
------------------------------------------------------------

namespace Decisions

/- How long a turn stays open without a scan: a day. -/
def idleSecs : Nat := 86400

/- How often idle turns are looked for: each hour. -/
def sweepSecs : Nat := 3600

/- A sum of seconds. -/
def addSecs
    (a b : Nat) : Nat :=
  (a + b) % 2 ^ 64

/- What a later pull needs of a scan. -/
structure ScanInfo where
  turn : Option Nat
  agent : Nat
  project : Nat
  stashed : List Nat
  delivered : List Nat

/- What a later pull needs of a turn. -/
structure TurnInfo where
  agent : Nat
  delivered : List Nat

/- An open turn, under its session and agent. -/
structure Open where
  key : String × String
  turn : Turn
  agent : Nat
  last : Nat

/- The record clock, and when idle turns were looked for. -/
structure Clock where
  clock : Nat
  jump : Bool
  lastSweep : Nat

def Clock.new : Clock where
  clock := 0
  jump := false
  lastSweep := 0

structure Turns where
  opened : List Open
  scans : KeyMap String ScanInfo
  turns : List TurnInfo
  names : Interner String
  turnAgents : List Nat
  time : Clock

def Turns.new : Turns where
  opened := []
  scans := .empty
  turns := []
  names := .empty
  turnAgents := []
  time := .new

/- The ways that a scan gave one of these results. -/
def Scan.waysWith
    (scan : Scan)
    (results : List String) : List String :=
  (scan.outcomes.filter (fun o => o.result ∈ results)).map
    Outcome.way

def deliveredResults : List String :=
  ["fired", "redisclosed"]

/- The agent id of a session's main agent. -/
def main : String := "main"

/-
  Whether a time may drive the sweep clock. One far past the
  clock is held back once, and a second confirms it.
-/
def Clock.advance
    (c : Clock)
    (t : Nat) : Bool × Clock :=
  if c.clock ≠ 0 ∧ addSecs c.clock idleSecs < t ∧
      c.jump = false then
    (false, { c with jump := true })
  else
    (true, { c with jump := false, clock := max c.clock t })

/- The time of the sweep that a record brings, if it does. -/
def Clock.sweep
    (c : Clock)
    (ts : String) : Option Nat × Clock :=
  match When.parseUtcIso ts with
  | none => (none, c)
  | some now =>
      let (drives, c) := c.advance now
      if drives ∧ addSecs c.lastSweep sweepSecs ≤ now then
        (some now, { c with lastSweep := now })
      else (none, c)

/- Turns in the order they were opened. -/
def inOrder
    (turns : List Turn) : List Turn :=
  turns.insertionSort (fun t u => t.ordinal ≤ u.ordinal)

/- The turns that are idle by now are handed on. -/
def Turns.closeIdle
    (s : Turns)
    (now : Nat) : Turns × List Grouped :=
  let idle (o : Open) : Bool := addSecs o.last idleSecs < now
  ({ s with opened := s.opened.filter (fun o => !idle o) },
    (inOrder ((s.opened.filter idle).map Open.turn)).map
      .turn)

/- The sweep that a record's time may bring. -/
def Turns.sweep
    (s : Turns)
    (ts : String) : Turns × List Grouped :=
  let (due, time) := s.time.sweep ts
  match due with
  | none => ({ s with time := time }, [])
  | some now => ({ s with time := time }).closeIdle now

/- The later of two open turns: by its last scan, then its place. -/
def later
    (best : Option Open)
    (o : Open) : Option Open :=
  match best with
  | none => some o
  | some b =>
      if b.last < o.last ∨
          b.last = o.last ∧ b.turn.ordinal ≤ o.turn.ordinal
      then some o
      else some b

/- The most recently active turn of a session. -/
def Turns.mostRecent
    (s : Turns)
    (session : String) : Option Open :=
  (s.opened.filter (fun o => o.key.1 = session)).foldl later
    none

/- An agent starts a turn, which hands on the one it had open. -/
def Turns.openTurn
    (s : Turns)
    (scan : Scan)
    (agent now : Nat) : Turns × List Grouped :=
  let key := (scan.session, scan.agent)
  let done := s.opened.filter (fun o => o.key = key)
  ({ s with
      opened :=
        s.opened.filter (fun o => o.key ≠ key) ++
          [{ key := key
             turn :=
              { ordinal := s.turns.length
                start := scan
                scans := [] }
             agent := agent
             last := now }]
      turns := s.turns ++ [{ agent := agent, delivered := [] }]
      turnAgents := agent :: s.turnAgents },
    done.map (fun o => .turn o.turn))

/-
  The open turn that a scan belongs to: its agent's own, or,
  for an agent that opens no turns, the session's most
  recently active one.
-/
def Turns.turnKey
    (s : Turns)
    (scan : Scan)
    (agent : Nat) : Option Open :=
  match
    s.opened.find?
      (fun o => o.key = (scan.session, scan.agent)) with
  | some o => some o
  | none =>
      if scan.agent = main ∨ agent ∈ s.turnAgents then none
      else s.mostRecent scan.session

/- What is kept of a scan for later pulls. -/
def Turns.scanInfo
    (s : Turns)
    (scan : Scan)
    (agent : Nat)
    (turn : Option Nat) : ScanInfo × Turns :=
  let (project, names) := s.names.id scan.project
  let (stashed, names) :=
    names.ids (scan.waysWith ["stashed"])
  let (delivered, names) :=
    names.ids (scan.waysWith deliveredResults)
  ({ turn := turn
     agent := agent
     project := project
     stashed := stashed
     delivered := delivered },
    { s with names := names })

/- An open turn takes a scan. -/
def Open.take
    (o : Open)
    (scan : Scan)
    (now : Nat) : Open :=
  { o with
    last := max o.last now
    turn :=
      { o.turn with
        scans :=
          if scan.turnStart then o.turn.scans
          else o.turn.scans ++ [scan] } }

/- The open turn of a key takes a scan. -/
def Turns.take
    (s : Turns)
    (o : Open)
    (scan : Scan)
    (info : ScanInfo)
    (now : Nat) : Turns :=
  { s with
    opened :=
      s.opened.map
        (fun other =>
          if other.key = o.key then other.take scan now
          else other)
    turns :=
      if o.agent = info.agent then
        s.turns.modify o.turn.ordinal
          (fun t =>
            { t with
              delivered := t.delivered ++ info.delivered })
      else s.turns }

/- A scan is indexed under its id, if it has one. -/
def Turns.index
    (s : Turns)
    (scan : Scan)
    (info : ScanInfo) : Turns :=
  if scan.scanId = "" then s
  else { s with scans := s.scans.insert scan.scanId info }

/- A scan goes to its turn, or on as an orphan. -/
def Turns.place
    (s : Turns)
    (scan : Scan)
    (agent now : Nat) : Turns × List Grouped :=
  let turnKey := s.turnKey scan agent
  let (info, s) :=
    s.scanInfo scan agent
      (turnKey.map (fun o => o.turn.ordinal))
  match turnKey with
  | some o => ((s.take o scan info now).index scan info, [])
  | none => (s.index scan info, [.orphan scan])

def Turns.scan
    (s : Turns)
    (scan : Scan) : Turns × List Grouped :=
  let now :=
    (When.parseUtcIso scan.ts).getD s.time.lastSweep
  let (agent, names) := s.names.id scan.agent
  let s := { s with names := names }
  let (s, done) :=
    if scan.turnStart then s.openTurn scan agent now
    else (s, [])
  let (s, out) := s.place scan agent now
  (s, done ++ out)

/- Whether a pull's context had the way, by what is kept. -/
def Turns.given
    (s : Turns)
    (info : ScanInfo)
    (pull : Pull) : Bool :=
  let has (ways : List Nat) : Bool :=
    (s.names.find pull.way).any (fun w => ways.contains w)
  let own (t : Nat) : Option TurnInfo :=
    s.turns[t]?.filter (fun t => t.agent = info.agent)
  if s.names.find pull.agent = some info.agent then
    match info.turn.bind own with
    | some t => has t.delivered
    | none => has info.delivered
  else has info.stashed

/- The verdict on a pull. -/
def Turns.join
    (s : Turns)
    (pull : Pull) : Joined :=
  match pull.scanId with
  | none =>
      { pull := pull
        join := .noScanId
        turn := none
        project := none }
  | some id =>
      match s.scans.get? id with
      | none =>
          { pull := pull
            join := .unknown
            turn := none
            project := none }
      | some info =>
          { pull := pull
            join :=
              if s.given info pull then .delivered
              else .recallMiss
            turn := info.turn
            project := s.names.names[info.project]? }

/- One record, with whatever it completes. -/
def Turns.push
    (s : Turns)
    (record : Record) : Turns × List Grouped :=
  let (s, swept) := s.sweep record.ts
  match record with
  | .scan scan =>
      let (s, out) := s.scan scan
      (s, swept ++ out)
  | .pull pull => (s, swept ++ [.pull (s.join pull)])

/- The turns still open, in the order they opened. -/
def Turns.finish
    (s : Turns) : List Grouped :=
  (inOrder (s.opened.map Open.turn)).map .turn

/- The grouper after some records, and what it has handed on. -/
def pushAll
    (s : Turns) : List Record → Turns × List Grouped
| [] => (s, [])
| record :: rest =>
    let (s, out) := s.push record
    let (s, more) := pushAll s rest
    (s, out ++ more)

/- A record stream grouped into turns and judged pulls. -/
def group
    (records : List Record) : List Grouped :=
  let (s, out) := pushAll .new records
  out ++ s.finish

end Decisions
