import AgentWays.EventLog.Lines
import AgentWays.Lib.Inclusive
import AgentWays.Lib.Windows

/-
  What the passes of log maintenance make of a live file's
  bytes, whatever these are: its last line may be open, and
  its timestamps in any order.

  No session appends meanwhile, and the writes succeed.
  `eventOf` stands for the JSON parser, as it does for whole
  lines; a file's reads come in chunks of any length.

  Key definitions include:
    * `LogFile.compactLogTail`
    * `LogFile.rotateLogByAge`
    * `LogFile.trimToTurns`
-/

------------------------------------------------------------
-- Files
------------------------------------------------------------

namespace LogFile

open EventLog (newline within ascii lineTs)

abbrev Bytes := List UInt8

/- `split_inclusive` at the newlines of a file. -/
def lines
    (data : Bytes) : List Bytes :=
  Inclusive.split newline data

/- A line with a newline, where it had none. -/
def ended
    (line : Bytes) : Bytes :=
  if [newline] <:+ line then line else line ++ [newline]

/- Whether a line records a call of the judge. -/
def isJudgeCall
    (eventOf : Bytes → Option String)
    (line : Bytes) : Bool :=
  within (ascii "judge_call") line &&
    eventOf line == some "judge_call"

def turnStart : Bytes :=
  ascii "\x22turn_start\x22:true"

/- Whether a line is the first of a turn. -/
def startsTurn
    (line : Bytes) : Bool :=
  within turnStart line

/-
  What a pass leaves: the live file, what the archive has
  gained, and whether the live file was replaced.
  `underflows` says that a subtraction went below zero,
  where a build with overflow checks stops.
-/
structure Pass where
  live : Bytes
  archived : Bytes
  moved : Bool
  underflows : Bool
deriving DecidableEq

/- A pass that leaves the log alone. -/
def standDown
    (data : Bytes) : Pass where
  live := data
  archived := []
  moved := false
  underflows := false

end LogFile

------------------------------------------------------------
-- Compaction
------------------------------------------------------------

namespace LogFile

open EventLog (newline)

variable (eventOf : Bytes → Option String)

/- Where the kept tail starts: after the first newline in it. -/
def tailStart
    (keepBytes : Nat)
    (data : Bytes) : Nat :=
  let cut := data.length - keepBytes
  match (data.drop cut).findIdx? (· = newline) with
  | some off => cut + off + 1
  | none => data.length

/- A subtraction of `usize`, which wraps below zero. -/
def wrappingSub
    (a b : Nat) : Nat :=
  if b ≤ a then a - b else a + 2 ^ 64 - b

/-
  `compact_log_tail_with`, below the ceiling. `failedToday`
  says that a marker of the day stops the pass.
-/
def compactLogTail
    (failedToday : Bool)
    (keepBytes minFreed : Nat)
    (data : Bytes) : Pass :=
  if data.length ≤ keepBytes ∨ failedToday = true then
    standDown data
  else
    let start := tailStart keepBytes data
    let head := lines (data.take start)
    let carried :=
      (head.filter (isJudgeCall eventOf)).flatMap ended
    let removed :=
      (head.filter (fun line => !isJudgeCall eventOf line)).flatMap
        ended
    let out := carried ++ data.drop start
    let underflows := decide (data.length < out.length)
    if wrappingSub data.length out.length < minFreed then
      { standDown data with underflows := underflows }
    else
      { live := out
        archived := removed
        moved := true
        underflows := underflows }

end LogFile

------------------------------------------------------------
-- Rotation By Age
------------------------------------------------------------

namespace LogFile

open EventLog (newline lineTs cutoffOf)

variable (eventOf : Bytes → Option String)

/- The second of the newest line in the last 64 KiB. -/
def newestTs
    (data : Bytes) : Option Nat :=
  let tail := data.drop (data.length - 64 * 1024)
  (tail.splitOn newline).reverse.findSome? lineTs

/- The old prefix of the log, sorted. -/
structure Split where
  kept : Bytes
  expired : Bytes
  currentFrom : Nat

/- The scan from the start, `s` what it has found so far. -/
def splitFrom
    (cutoff : Nat)
    (s : Split) : List Bytes → Option Split
| [] => none
| line :: rest =>
    let keep : Split :=
      { s with
        kept := s.kept ++ line
        currentFrom := s.currentFrom + line.length }
    if isJudgeCall eventOf line then
      splitFrom cutoff keep rest
    else
      match lineTs line with
      | some ts =>
          if cutoff ≤ ts then
            if s.expired.isEmpty then none else some s
          else
            splitFrom cutoff
              { s with
                expired := s.expired ++ line
                currentFrom := s.currentFrom + line.length }
              rest
      | none => splitFrom cutoff keep rest

def splitExpired
    (cutoff : Nat)
    (data : Bytes) : Option Split :=
  splitFrom eventOf cutoff
    { kept := [], expired := [], currentFrom := 0 } (lines data)

def rotateLogByAge
    (failedToday : Bool)
    (now retentionDays : Nat)
    (data : Bytes) : Pass :=
  if failedToday then standDown data
  else
    let cutoff := cutoffOf now retentionDays (newestTs data)
    match splitExpired eventOf cutoff data with
    | none => standDown data
    | some split =>
        { live := split.kept ++ data.drop split.currentFrom
          archived := split.expired
          moved := true
          underflows := false }

end LogFile

------------------------------------------------------------
-- The Turn Trim
------------------------------------------------------------

namespace LogFile

open EventLog (newline within tooManyTurns)

/-
  Whether the marker is in a segment of a line, or across it
  and the bytes of the line before it.
-/
def markerIn
    (tail seg : Bytes) : Bool :=
  within turnStart seg ||
    within turnStart (tail ++ seg.take (turnStart.length - 1))

/- A scan, with the offsets it has visited. -/
structure Scan where
  pos : Nat
  lineStart : Nat
  found : Bool
  tail : Bytes
  visited : List Nat

/- A segment of a chunk: up to a newline, or to its end. -/
def scanSegment
    (s : Scan)
    (seg : Bytes) : Scan :=
  let hit := !s.found && markerIn s.tail seg
  let visited :=
    if hit then s.visited ++ [s.lineStart] else s.visited
  let pos := s.pos + seg.length
  if [newline] <:+ seg then
    { pos := pos
      lineStart := pos
      found := false
      tail := []
      visited := visited }
  else
    { pos := pos
      lineStart := s.lineStart
      found := s.found || hit
      tail :=
        Windows.tailOf (turnStart.length - 1)
          (s.tail ++ Windows.tailOf (turnStart.length - 1) seg)
      visited := visited }

/-
  The offsets of the lines that start a turn. A visit that
  ends the scan changes none before it.
-/
def scanTurnStarts
    (chunks : List Bytes) : List Nat :=
  (chunks.foldl
    (fun s chunk => (lines chunk).foldl scanSegment s)
    { pos := 0
      lineStart := 0
      found := false
      tail := []
      visited := [] }).visited

/- `trim_to_turns`, with the chunks that its two scans read. -/
def trimToTurns
    (failedToday : Bool)
    (keep : Nat)
    (chunks chunks' : List Bytes)
    (data : Bytes) : Pass :=
  if failedToday then standDown data
  else
    let count := (scanTurnStarts chunks).length
    let keep := max keep 1
    if !tooManyTurns keep count then standDown data
    else
      match (scanTurnStarts chunks')[count - keep]? with
      | none => standDown data
      | some cut =>
          { live := data.drop cut
            archived := data.take cut
            moved := true
            underflows := false }

end LogFile
