import AgentWays.Reflow.Detect
import AgentWays.Lib.Words

/-
  The repair of hard-wrapped prose, and the check of its
  words.

  Each detected unit is joined to one line; the check
  compares the words of the two texts and accounts for the
  quote markers that a join leaves out.

  Key definitions include:
    * `Reflow.flatten`
    * `Reflow.reflowWithStats`
    * `Reflow.tokenVerdictAccounted`
-/

------------------------------------------------------------
-- Joins
------------------------------------------------------------

namespace Reflow

open RustText

/- A block of lines as one line. -/
def flatten
    (first : Line)
    (rest : List Line) : Line :=
  let quoted := isBlockquote first
  let last := (first :: rest).getLast (List.cons_ne_nil _ _)
  let joined :=
    [' '].intercalate
      (trim first ::
        rest.map
          (fun l => trim (if quoted then quoteBody l else l)))
  indentOf first ++ joined ++
    (if endsWith (withoutNewline last) "  " then [' ', ' ']
      else []) ++
    (if endsWith last "\r" then ['\r'] else [])

/- The open block's line and the markers its join leaves out. -/
def flushBlock : List Line → List Line × Nat
| [] => ([], 0)
| first :: rest =>
    ([flatten first rest],
      if isBlockquote first then
        (rest.filter isBlockquote).length
      else 0)

/-
  The lines of a unit joined, split where one may not be
  joined to the line before it. `block` is the open block.
-/
def joinLines
    (block : List Line) : List Line → List Line × Nat
| [] => flushBlock block
| line :: rest =>
    let flushed :=
      if block.getLast?.any (startsJoinBlock line) then
        flushBlock block
      else ([], 0)
    let block :=
      if block.getLast?.any (startsJoinBlock line) then [line]
      else block ++ [line]
    if hasHardBreak line then
      let ended := flushBlock block
      let later := joinLines [] rest
      (flushed.1 ++ ended.1 ++ later.1,
        flushed.2 + ended.2 + later.2)
    else
      let later := joinLines block rest
      (flushed.1 ++ later.1, flushed.2 + later.2)

/- The end of the unit that starts at a line. -/
def spanEnd
    (hot : List WrappedParagraph)
    (i : Nat) : Option Nat :=
  (hot.reverse.find? (fun w => w.start = i)).map
    (fun w => w.stop)

/- The lines from `i` on with each unit joined. -/
def reflowFrom
    (hot : List WrappedParagraph)
    (i : Nat) : List Line → List Line × Nat
| [] => ([], 0)
| line :: rest =>
    match spanEnd hot i with
    | none =>
        let later := reflowFrom hot (i + 1) rest
        (line :: later.1, later.2)
    | some stop =>
        let joined :=
          joinLines [] ((line :: rest).take (stop + 1 - i))
        let later :=
          reflowFrom hot (stop + 1) (rest.drop (stop - i))
        (joined.1 ++ later.1, joined.2 + later.2)
termination_by lines => lines.length
decreasing_by
  · simp
  · simp only [List.length_drop, List.length_cons]
    omega

/- The lines reflowed, and the quote markers left out. -/
def reflowWithStats
    (lowercase : Char → Bool)
    (isOpaque : List Bool)
    (lines : List Line) : List Line × Nat :=
  let hot := detect lowercase isOpaque lines
  if hot.isEmpty then (lines, 0) else reflowFrom hot 0 lines

end Reflow

------------------------------------------------------------
-- Verdicts
------------------------------------------------------------

namespace Reflow

open RustText

/- The words of a text. -/
def tokens
    (text : List Char) : List (List Char) :=
  Words.words isWhitespace text

/- The result of the check of the words. -/
inductive TokenVerdict
| identical
| quoteMarkersDropped (dropped : Nat)
| mismatch (before after : Nat)
deriving DecidableEq

def tokenVerdict
    (before after : List Char) : TokenVerdict :=
  let b := tokens before
  let a := tokens after
  if b = a then .identical
  else if b.filter (· ≠ ['>']) = a.filter (· ≠ ['>']) then
    let beforeMarkers := b.count ['>']
    let afterMarkers := a.count ['>']
    if afterMarkers ≤ beforeMarkers then
      .quoteMarkersDropped (beforeMarkers - afterMarkers)
    else .mismatch b.length a.length
  else .mismatch b.length a.length

def tokenVerdictAccounted
    (before after : List Char)
    (expected : Nat) : TokenVerdict :=
  match tokenVerdict before after with
  | .quoteMarkersDropped dropped =>
      if dropped ≠ expected then
        .mismatch (tokens before).length (tokens after).length
      else .quoteMarkersDropped dropped
  | other => other

/- A text of lines. -/
def textOf
    (lines : List Line) : List Char :=
  ['\n'].intercalate lines

end Reflow
