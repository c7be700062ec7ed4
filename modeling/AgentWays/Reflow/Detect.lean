import AgentWays.Lib.RustText
import Mathlib.Data.List.DropRight
import Mathlib.Algebra.GroupWithZero.Nat

/-
  The detector of hard-wrapped prose: which lines are prose,
  the units a repair would join, and the units that hold a
  window of wrapped lines.

  A line is the list of its characters. What the Markdown
  parser finds opaque is given, one flag a line, and so is
  the table of lowercase letters.

  Key definitions include:
    * `Reflow.classify`
    * `Reflow.startsJoinBlock`
    * `Reflow.units`
    * `Reflow.detect`
-/

------------------------------------------------------------
-- Lines
------------------------------------------------------------

namespace Reflow

open RustText

abbrev Line := List Char

/- How a line takes part in the detection. -/
inductive LineKind
| verbatim
| blank
| prose
deriving DecidableEq

def trimStart
    (line : Line) : Line :=
  line.dropWhile isWhitespace

def trimEnd
    (line : Line) : Line :=
  line.rdropWhile isWhitespace

def trim
    (line : Line) : Line :=
  trimEnd (trimStart line)

/- Whether a line starts with a text. -/
def startsWith
    (line : Line)
    (text : String) : Bool :=
  text.toList.isPrefixOf line

def endsWith
    (line : Line)
    (text : String) : Bool :=
  text.toList.isSuffixOf line

/- The characters that end a line at a natural boundary. -/
def boundaryEnd : List Char :=
  ['.', '!', '?', ':', ';', '\u0022', ')', '\u0060', '*',
    '|', '>', ',', '_', ']', '\u0027', '\u2014', '\u2013',
    '\u201d', '\u2019']

def indentOf
    (line : Line) : Line :=
  line.takeWhile isWhitespace

/- A list item: a mark or a number, and a space. -/
def isListItem
    (line : Line) : Bool :=
  match trimStart line with
  | [] => false
  | c :: rest =>
      if c = '-' ∨ c = '*' ∨ c = '+' then
        rest.head? = some ' '
      else if c.isDigit then
        match rest.dropWhile Char.isDigit with
        | d :: e :: _ => (d = '.' ∨ d = ')') ∧ e = ' '
        | _ => false
      else false

def isBlockquote
    (line : Line) : Bool :=
  startsWith (trimStart line) ">"

/- A line without one level of its quote marker. -/
def quoteBody
    (line : Line) : Line :=
  match trimStart line with
  | '>' :: rest =>
      match rest with
      | ' ' :: body => body
      | _ => rest
  | other => other

def isEmptyBlockquote
    (line : Line) : Bool :=
  isBlockquote line && (trim (quoteBody line)).isEmpty

/- A line without the newline and returns at its end. -/
def withoutNewline
    (line : Line) : Line :=
  line.rdropWhile (fun c => c = '\r' ∨ c = '\n')

/- Whether a line ends in an explicit hard break. -/
def hasHardBreak
    (line : Line) : Bool :=
  endsWith (withoutNewline line) "  " ||
    endsWith (withoutNewline line) "\\"

def extensionDelimiters : List String :=
  [":::", "!!!", "???", "\x7b%", "%\x7d", "+++", "<%", "%>"]

theorem quoteBody_cons
    (rest : Line) :
    quoteBody ('>' :: rest) =
      match rest with
      | ' ' :: body => body
      | _ => rest :=
  rfl

theorem length_quoteBody
    (rest : Line) :
    (trimStart (quoteBody ('>' :: rest))).length ≤
      rest.length := by
  have hTrim :
      (trimStart (quoteBody ('>' :: rest))).length ≤
        (quoteBody ('>' :: rest)).length :=
    (List.dropWhile_sublist isWhitespace).length_le
  have hBody : (quoteBody ('>' :: rest)).length ≤ rest.length := by
    rw [quoteBody_cons]
    split
    · exact Nat.le_succ _
    · exact Nat.le_refl _
  exact hTrim.trans hBody

/-
  A delimiter of a block that the parser does not know, seen
  through any quote markers. The argument is trimmed.
-/
def delimiterAhead
    (line : Line) : Bool :=
  extensionDelimiters.any (startsWith line) ||
    match line with
    | '>' :: rest =>
        delimiterAhead (trimStart (quoteBody ('>' :: rest)))
    | _ => false
termination_by line.length
decreasing_by
  have hLength := length_quoteBody rest
  simp only [List.length_cons]
  omega

def isExtensionDelimiter
    (line : Line) : Bool :=
  delimiterAhead (trimStart line)

/-
  Each line's kind. The flags say which lines the parser
  finds opaque; a line without a flag is not.
-/
def classify
    (isOpaque : List Bool)
    (lines : List Line) : List LineKind :=
  lines.mapIdx
    (fun i raw =>
      if isOpaque.getD i false || isExtensionDelimiter raw then
        LineKind.verbatim
      else if (trim raw).isEmpty || isEmptyBlockquote raw then
        LineKind.blank
      else LineKind.prose)

end Reflow

------------------------------------------------------------
-- Units
------------------------------------------------------------

namespace Reflow

open RustText

/- Whether a line opens a new block after another line. -/
def startsJoinBlock
    (line prev : Line) : Bool :=
  isListItem line || isListItem (quoteBody line) ||
    startsWith (trimStart (quoteBody line)) "**" ||
    isBlockquote line != isBlockquote prev ||
    hasHardBreak prev

/- A span of lines, dropped at a single line. -/
def close
    (s e : Nat) : List (Nat × Nat) :=
  if s < e then [(s, e)] else []

/-
  The spans of the lines from `i` on. `prev` is the line
  before `i`, and `start` where the open span started.
-/
def unitsFrom
    (i : Nat)
    (prev : Line) :
    Option Nat → List (LineKind × Line) → List (Nat × Nat)
| none, [] => []
| some s, [] => close s (i - 1)
| none, (.prose, line) :: rest =>
    unitsFrom (i + 1) line (some i) rest
| some s, (.prose, line) :: rest =>
    if startsJoinBlock line prev then
      close s (i - 1) ++ unitsFrom (i + 1) line (some i) rest
    else unitsFrom (i + 1) line (some s) rest
| none, (_, line) :: rest => unitsFrom (i + 1) line none rest
| some s, (_, line) :: rest =>
    close s (i - 1) ++ unitsFrom (i + 1) line none rest

/- The spans of prose a repair would join, as first and last. -/
def units
    (kinds : List LineKind)
    (lines : List Line) : List (Nat × Nat) :=
  unitsFrom 0 [] none (kinds.zip lines)

end Reflow

------------------------------------------------------------
-- Windows
------------------------------------------------------------

namespace Reflow

open RustText

/- A unit with a window of wrapped lines. -/
structure WrappedParagraph where
  start : Nat
  stop : Nat
  triggerStart : Nat
  triggerLen : Nat
  midBreaks : Nat
deriving DecidableEq

structure DetectConfig where
  minLen : Nat
  maxLen : Nat
  band : Nat
  minRun : Nat
  minMidBreaks : Nat
deriving DecidableEq

def defaultConfig : DetectConfig where
  minLen := 55
  maxLen := 100
  band := 12
  minRun := 2
  minMidBreaks := 2

/- The start of a line that resumes a phrase. -/
def resumes
    (lowercase : Char → Bool)
    (line : Line) : Bool :=
  let bt := trimStart line
  if startsWith bt "#" || startsWith bt "|" ||
      startsWith bt "**" then false
  else
    bt.head?.any
      (fun c =>
        lowercase c || ['\u201c', '\u0022', '(', '\u0060'].contains c)

/- Whether the break between two lines reads as mechanical. -/
def isMidPhraseBreak
    (lowercase : Char → Bool)
    (a b : Line) : Bool :=
  if hasHardBreak a || isBlockquote a != isBlockquote b then false
  else
    let quoted := isBlockquote a
    let a := if quoted then quoteBody a else a
    let b := if quoted then quoteBody b else b
    match (trimEnd a).getLast? with
    | none => false
    | some c =>
        !boundaryEnd.contains c && !isListItem b &&
          resumes lowercase b

/- The mechanical breaks between neighbours. -/
def midBreaks
    (lowercase : Char → Bool)
    (lines : List Line) : Nat :=
  ((lines.zip lines.tail).filter
    (fun p => isMidPhraseBreak lowercase p.1 p.2)).length

/-
  The windows of a unit from one offset on. `lo` and `hi` are
  the least and greatest length of the lines taken in, none
  while only the exempt tail is; a band that fails for one
  window fails for each longer one.
-/
def windowAt
    (lowercase : Char → Bool)
    (cfg : DetectConfig)
    (lines : List Line)
    (lens : List Nat)
    (pstart offset : Nat) :
    Nat → Nat → Option (Nat × Nat) → Option (Nat × Nat × Nat)
| 0, _, _ => none
| more + 1, len, range =>
    let n := lens.length
    let upto := if len = cfg.minRun then 0 else len - 1
    let taken :=
      ((List.range' (offset + upto) (len - upto)).filter
        (fun i => !(i = n - 1 ∧ lens.getD i 0 < cfg.minLen))).map
          (fun i => lens.getD i 0)
    let range :=
      taken.foldl
        (fun range l =>
          match range with
          | none => some (l, l)
          | some (lo, hi) => some (min lo l, max hi l))
        range
    let next :=
      windowAt lowercase cfg lines lens pstart offset more
        (len + 1) range
    match range with
    | none => next
    | some (lo, hi) =>
        if lo < cfg.minLen ∨ cfg.maxLen < hi ∨
            cfg.band < hi - lo then none
        else
          let win := (lines.drop (pstart + offset)).take len
          let mids := midBreaks lowercase win
          if min cfg.minMidBreaks (len - 1) ≤ mids then
            some (offset, len, mids)
          else next

/- The first window of a unit that qualifies, if any does. -/
def firstWindow
    (lowercase : Char → Bool)
    (cfg : DetectConfig)
    (lines : List Line)
    (unit : Nat × Nat) : Option WrappedParagraph :=
  let n := unit.2 - unit.1 + 1
  if n < cfg.minRun then none
  else
    let lens :=
      ((lines.drop unit.1).take n).map
        (fun l => (trimEnd l).length)
    ((List.range (n - cfg.minRun + 1)).findSome?
      (fun offset =>
        windowAt lowercase cfg lines lens unit.1 offset
          (n - offset + 1 - cfg.minRun) cfg.minRun none)).map
      (fun w =>
        { start := unit.1
          stop := unit.2
          triggerStart := unit.1 + w.1
          triggerLen := w.2.1
          midBreaks := w.2.2 })

def detectWith
    (lowercase : Char → Bool)
    (isOpaque : List Bool)
    (lines : List Line)
    (cfg : DetectConfig) : List WrappedParagraph :=
  (units (classify isOpaque lines) lines).filterMap
    (firstWindow lowercase cfg lines)

/- The units with a window of wrapped lines. -/
def detect
    (lowercase : Char → Bool)
    (isOpaque : List Bool)
    (lines : List Line) : List WrappedParagraph :=
  detectWith lowercase isOpaque lines defaultConfig

end Reflow
