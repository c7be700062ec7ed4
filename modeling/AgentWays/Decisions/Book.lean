import AgentWays.Decisions.Turns

/-
  The grouper by names: what it knows is which scans it has
  read and which turn each belongs to.

  A pull is judged by the scans before it and their turns.

  Key definitions include:
    * `Decisions.Placed`, a scan with its turn
    * `Decisions.Book`
    * `Decisions.Book.push`
    * `Decisions.judge`
-/

------------------------------------------------------------
-- Judging By The Scans
------------------------------------------------------------

namespace Decisions

/- A scan, and the ordinal of the turn it belongs to. -/
abbrev Placed := Scan × Option Nat

/- The scans that open turns, in order. -/
def starts
    (placed : List Placed) : List Scan :=
  (placed.map Prod.fst).filter Scan.turnStart

/- The latest scan of an id. -/
def latest
    (placed : List Placed)
    (id : String) : Option Placed :=
  placed.reverse.find? (fun e => e.1.scanId = id)

/- The agent that opened a turn. -/
def opener
    (placed : List Placed)
    (ordinal : Nat) : Option String :=
  (starts placed)[ordinal]?.map Scan.agent

/- Whether a scan gave a way. -/
def Scan.delivers
    (scan : Scan)
    (way : String) : Bool :=
  way ∈ scan.waysWith deliveredResults

/- Whether a scan of an agent in a turn gave a way. -/
def gave
    (placed : List Placed)
    (agent : String)
    (ordinal : Nat)
    (way : String) : Bool :=
  placed.any
    (fun e =>
      e.2 = some ordinal ∧ e.1.agent = agent ∧
        e.1.delivers way)

/- Whether a pull's context had the way, by the scan it names. -/
def given
    (placed : List Placed)
    (named : Placed)
    (pull : Pull) : Bool :=
  if pull.agent = named.1.agent then
    match named.2 with
    | some ordinal =>
        if opener placed ordinal = some named.1.agent then
          gave placed named.1.agent ordinal pull.way
        else named.1.delivers pull.way
    | none => named.1.delivers pull.way
  else pull.way ∈ named.1.waysWith ["stashed"]

/- The verdict on a pull. A scan without an id has no name. -/
def judge
    (placed : List Placed)
    (pull : Pull) : Joined :=
  match pull.scanId with
  | none =>
      { pull := pull
        join := .noScanId
        turn := none
        project := none }
  | some id =>
      match
        if id = "" then none else latest placed id with
      | none =>
          { pull := pull
            join := .unknown
            turn := none
            project := none }
      | some named =>
          { pull := pull
            join :=
              if given placed named pull then .delivered
              else .recallMiss
            turn := named.2
            project := some named.1.project }

end Decisions

------------------------------------------------------------
-- The Grouper By Names
------------------------------------------------------------

namespace Decisions

/- An open turn, and when its last scan was. -/
structure OpenTurn where
  turn : Turn
  last : Nat

def Scan.key
    (scan : Scan) : String × String :=
  (scan.session, scan.agent)

def OpenTurn.key
    (o : OpenTurn) : String × String :=
  o.turn.start.key

structure Book where
  opened : List OpenTurn
  placed : List Placed
  time : Clock

def Book.new : Book where
  opened := []
  placed := []
  time := .new

def Book.closeIdle
    (b : Book)
    (now : Nat) : Book × List Grouped :=
  let idle (o : OpenTurn) : Bool :=
    addSecs o.last idleSecs < now
  ({ b with opened := b.opened.filter (fun o => !idle o) },
    (inOrder ((b.opened.filter idle).map OpenTurn.turn)).map
      .turn)

def Book.sweep
    (b : Book)
    (ts : String) : Book × List Grouped :=
  let (due, time) := b.time.sweep ts
  match due with
  | none => ({ b with time := time }, [])
  | some now => ({ b with time := time }).closeIdle now

def laterTurn
    (best : Option OpenTurn)
    (o : OpenTurn) : Option OpenTurn :=
  match best with
  | none => some o
  | some b =>
      if b.last < o.last ∨
          b.last = o.last ∧ b.turn.ordinal ≤ o.turn.ordinal
      then some o
      else some b

def Book.mostRecent
    (b : Book)
    (session : String) : Option OpenTurn :=
  (b.opened.filter (fun o => o.key.1 = session)).foldl
    laterTurn none

/- The turn that a scan opens. -/
def Book.newTurn
    (b : Book)
    (scan : Scan)
    (now : Nat) : OpenTurn where
  turn :=
    { ordinal := (starts b.placed).length
      start := scan
      scans := [] }
  last := now

def Book.openTurn
    (b : Book)
    (scan : Scan)
    (now : Nat) : Book × List Grouped :=
  ({ b with
      opened :=
        b.opened.filter (fun o => o.key ≠ scan.key) ++
          [b.newTurn scan now] },
    (b.opened.filter (fun o => o.key = scan.key)).map
      (fun o => .turn o.turn))

/- Whether an agent has opened a turn. -/
def opensTurns
    (placed : List Placed)
    (agent : String) : Bool :=
  (starts placed).any (fun s => s.agent = agent)

def Book.turnOf
    (b : Book)
    (scan : Scan) : Option OpenTurn :=
  match b.opened.find? (fun o => o.key = scan.key) with
  | some o => some o
  | none =>
      if scan.agent = main ∨ opensTurns b.placed scan.agent
      then none
      else b.mostRecent scan.session

def OpenTurn.take
    (o : OpenTurn)
    (scan : Scan)
    (now : Nat) : OpenTurn where
  last := max o.last now
  turn :=
    { o.turn with
      scans :=
        if scan.turnStart then o.turn.scans
        else o.turn.scans ++ [scan] }

def Book.take
    (b : Book)
    (o : OpenTurn)
    (scan : Scan)
    (now : Nat) : Book :=
  { b with
    opened :=
      b.opened.map
        (fun other =>
          if other.key = o.key then other.take scan now
          else other) }

def Book.place
    (b : Book)
    (scan : Scan)
    (now : Nat) : Book × List Grouped :=
  match b.turnOf scan with
  | some o =>
      ({ b.take o scan now with
          placed :=
            b.placed ++ [(scan, some o.turn.ordinal)] },
        [])
  | none =>
      ({ b with placed := b.placed ++ [(scan, none)] },
        [.orphan scan])

def Book.scan
    (b : Book)
    (scan : Scan) : Book × List Grouped :=
  let now :=
    (When.parseUtcIso scan.ts).getD b.time.lastSweep
  let (b, done) :=
    if scan.turnStart then b.openTurn scan now
    else (b, [])
  let (b, out) := b.place scan now
  (b, done ++ out)

def Book.push
    (b : Book)
    (record : Record) : Book × List Grouped :=
  let (b, swept) := b.sweep record.ts
  match record with
  | .scan scan =>
      let (b, out) := b.scan scan
      (b, swept ++ out)
  | .pull pull =>
      (b, swept ++ [.pull (judge b.placed pull)])

def Book.finish
    (b : Book) : List Grouped :=
  (inOrder (b.opened.map OpenTurn.turn)).map .turn

def Book.pushAll
    (b : Book) : List Record → Book × List Grouped
| [] => (b, [])
| record :: rest =>
    let (b, out) := b.push record
    let (b, more) := b.pushAll rest
    (b, out ++ more)

end Decisions
