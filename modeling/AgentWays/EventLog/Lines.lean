import AgentWays.Fmt.When
import Mathlib.Algebra.GroupWithZero.Nat

/-
  The lines of a log, and which of them a pass over it
  removes.

  A log is the list of its whole lines, and a place in it
  counts lines; where the source counts bytes, a line has
  its bytes and a newline. `eventOf` stands for the JSON
  parser: the text under `event` of a line that parses.

  Key definitions include:
    * `EventLog.Line`
    * `EventLog.compaction`
    * `EventLog.splitExpired`
    * `EventLog.turnCut`
-/

------------------------------------------------------------
-- Lines
------------------------------------------------------------

namespace EventLog

/- The byte that ends a line. -/
def newline : UInt8 := 10

/- The byte of a double quote. -/
def quote : UInt8 := 34

/- A line, without the newline that ends it. -/
structure Line where
  bytes : List UInt8
  whole : newline ∉ bytes
deriving DecidableEq

/- The bytes of an ASCII text. -/
def ascii
    (s : String) : List UInt8 :=
  s.toList.map (fun c => c.toNat.toUInt8)

/- Whether some bytes stand together within others. -/
def within
    (needle bytes : List UInt8) : Bool :=
  bytes.tails.any (fun tail => needle.isPrefixOf tail)

/- The bytes a line takes in the file. -/
def Line.size
    (line : Line) : Nat :=
  line.bytes.length + 1

/- The bytes of a file. -/
def size
    (lines : List Line) : Nat :=
  (lines.map Line.size).sum

/- The second in the head of a line, read without a parse. -/
def lineTs
    (bytes : List UInt8) : Option Nat :=
  let head := ascii "\x7b\u0022ts\u0022:\u0022"
  if head.isPrefixOf bytes then
    let rest := bytes.drop head.length
    let text := rest.takeWhile (· ≠ quote)
    if text.length < rest.length then
      (String.fromUTF8? ⟨text.toArray⟩).bind When.parseUtcIso
    else none
  else none

/- Whether a line records a call of the judge. -/
def isJudgeCall
    (eventOf : Line → Option String)
    (line : Line) : Bool :=
  within (ascii "judge_call") line.bytes &&
    eventOf line == some "judge_call"

/- Whether a line is the first of a turn. -/
def startsTurn
    (line : Line) : Bool :=
  within (ascii "\u0022turn_start\u0022:true") line.bytes

end EventLog

------------------------------------------------------------
-- Compaction
------------------------------------------------------------

namespace EventLog

variable (eventOf : Line → Option String)

/-
  The lines up to the first that ends past a byte: all of
  them where none does.
-/
def linesTo
    (cut : Nat) : List Line → Nat
| [] => 0
| line :: rest =>
    if cut < line.size then 1
    else 1 + linesTo (cut - line.size) rest

/- What a pass keeps of the lines it has read, and removes. -/
structure Cut where
  kept : List Line
  removed : List Line

/-
  The newest bytes of a log, with the judge's calls of the
  head ahead of them.
-/
def compaction
    (keepBytes : Nat)
    (data : List Line) : Cut :=
  let start := linesTo (size data - keepBytes) data
  let head := data.take start
  { kept :=
      head.filter (isJudgeCall eventOf) ++ data.drop start
    removed :=
      head.filter (fun line => !isJudgeCall eventOf line) }

end EventLog

------------------------------------------------------------
-- Rotation By Age
------------------------------------------------------------

namespace EventLog

variable (eventOf : Line → Option String)

/-
  The second of the newest line with one, as far as the
  last 64 KiB of the file tell.
-/
def newestTs
    (data : List Line) : Option Nat :=
  let bytes :=
    data.flatMap (fun line => line.bytes ++ [newline])
  let tail := bytes.drop (bytes.length - 64 * 1024)
  (tail.splitOn newline).reverse.findSome? lineTs

/- The old lines of a log: what stays, and what expires. -/
structure Split where
  kept : List Line
  expired : List Line
  currentFrom : Nat

/-
  The scan from the start of the log, `s` what it has found
  so far. It ends at the first line that is not older than
  the cutoff, and at the end of the log it finds nothing.
-/
def splitFrom
    (cutoff : Nat)
    (s : Split) : List Line → Option Split
| [] => none
| line :: rest =>
    let keep : Split :=
      { s with
        kept := s.kept ++ [line]
        currentFrom := s.currentFrom + 1 }
    if isJudgeCall eventOf line then
      splitFrom cutoff keep rest
    else
      match lineTs line.bytes with
      | some ts =>
          if cutoff ≤ ts then
            if s.expired.isEmpty then none else some s
          else
            splitFrom cutoff
              { s with
                expired := s.expired ++ [line]
                currentFrom := s.currentFrom + 1 }
              rest
      | none => splitFrom cutoff keep rest

def splitExpired
    (cutoff : Nat)
    (data : List Line) : Option Split :=
  splitFrom eventOf cutoff
    { kept := [], expired := [], currentFrom := 0 } data

/-
  The second before which lines expire: so many days before
  now, or before the newest line where the clock is ahead.
-/
def cutoffOf
    (now retentionDays : Nat)
    (newest : Option Nat) : Nat :=
  newest.elim now (min · now) - max retentionDays 1 * 86400

end EventLog

------------------------------------------------------------
-- The Turn Trim
------------------------------------------------------------

namespace EventLog

/- The turns that a log holds. -/
def turns
    (data : List Line) : Nat :=
  data.countP startsTurn

/- Whether a log holds a tenth more turns than it may. -/
def tooManyTurns
    (keep count : Nat) : Bool :=
  min (keep + keep / 10) (2 ^ 64 - 1) < count

/- The place of the turn with so many before it. -/
def turnCut : Nat → List Line → Option Nat
| _, [] => none
| before, line :: rest =>
    if startsTurn line then
      match before with
      | 0 => some 0
      | before + 1 => (turnCut before rest).map (· + 1)
    else (turnCut before rest).map (· + 1)

end EventLog
