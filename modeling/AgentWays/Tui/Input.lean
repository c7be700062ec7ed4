import AgentWays.Lib.StepMachine
import AgentWays.Lib.Utf8
import AgentWays.Tui.Wrap

/-
  The text entry of agent-tui: a text and a cursor counted
  in characters, the editing keys, and the rows it is drawn
  on.

  An operation is `none` where a byte slice of the text is
  off a character boundary, or an index is out of bounds.

  Key definitions include:
    * `Tui.Input`
    * `Tui.Input.rows`
    * `Tui.Input.click`
    * `Tui.Edit`
    * `Tui.entry`
-/

------------------------------------------------------------
-- Editing
------------------------------------------------------------

namespace Tui

structure Input where
  text : List Char
  cursor : Nat
deriving DecidableEq

/- The byte offset of a character, or the text's length. -/
def byteAt
    (s : List Char)
    (n : Nat) : Nat :=
  ((Utf8.charIndices s)[n]?).elim (Utf8.size s) Prod.fst

/- `String::insert_str` at a byte offset. -/
def insertAt
    (text : List Char)
    (at_ : Nat)
    (s : List Char) : Option (List Char) :=
  (Utf8.splitAt? text at_).map
    (fun parts => parts.1 ++ s ++ parts.2)

/- `String::replace_range` with nothing. -/
def removeRange
    (text : List Char)
    (x y : Nat) : Option (List Char) :=
  if x ≤ y then
    (Utf8.splitAt? text y).bind
      (fun parts =>
        (Utf8.splitAt? parts.1 x).map
          (fun kept => kept.1 ++ parts.2))
  else none

variable (u : Unicode)

namespace Input

def empty : Input where
  text := []
  cursor := 0

def bounds
    (i : Input) : List Nat :=
  u.graphemes.bounds i.text

/- The first boundary from a place on. -/
def snap
    (i : Input)
    (n : Nat) : Nat :=
  ((i.bounds u).find? (fun b => n ≤ b)).getD i.text.length

def set
    (text : List Char)
    (cursor : Nat) : Input :=
  { text := text
    cursor := snap u { text := text, cursor := 0 } cursor }

def insert
    (i : Input)
    (c : Char) : Option Input :=
  (insertAt i.text (byteAt i.text i.cursor) [c]).map
    (fun text =>
      let i := { i with text := text }
      { i with cursor := i.snap u (i.cursor + 1) })

def insertStr
    (i : Input)
    (s : List Char) : Option Input :=
  (insertAt i.text (byteAt i.text i.cursor) s).map
    (fun text =>
      let i := { i with text := text }
      { i with cursor := i.snap u (i.cursor + s.length) })

def newline
    (i : Input) : Option Input :=
  i.insert u '\n'

/- The characters from one place to another removed. -/
def cut
    (i : Input)
    (a b : Nat) : Option Input :=
  (removeRange i.text (byteAt i.text a) (byteAt i.text b)).map
    (fun text => { i with text := text })

def backspace
    (i : Input) : Option Input :=
  match (i.bounds u).reverse.find? (fun b => b < i.cursor) with
  | none => some i
  | some prev =>
      (i.cut prev i.cursor).map
        (fun i => { i with cursor := prev })

def delete
    (i : Input) : Option Input :=
  match (i.bounds u).find? (fun b => i.cursor < b) with
  | none => some i
  | some next => i.cut i.cursor next

def left
    (i : Input) : Input :=
  { i with
    cursor :=
      ((i.bounds u).reverse.find?
        (fun b => b < i.cursor)).getD 0 }

def right
    (i : Input) : Input :=
  { i with
    cursor :=
      ((i.bounds u).find?
        (fun b => i.cursor < b)).getD i.cursor }

/- The start of the cursor's line. -/
def home
    (i : Input) : Option Input :=
  (Utf8.splitAt? i.text (byteAt i.text i.cursor)).bind
    (fun parts =>
      match Utf8.rfind? '\n' parts.1 with
      | none => some { i with cursor := 0 }
      | some n =>
          (Utf8.splitAt? parts.1 (n + 1)).map
            (fun line =>
              { i with cursor := line.1.length }))

/- The end of the cursor's line. -/
def «end»
    (i : Input) : Option Input :=
  (Utf8.splitAt? i.text (byteAt i.text i.cursor)).bind
    (fun parts =>
      match Utf8.find? '\n' parts.2 with
      | none =>
          some
            { i with cursor := i.cursor + parts.2.length }
      | some b =>
          (Utf8.splitAt? parts.2 b).map
            (fun line =>
              { i with
                cursor := i.cursor + line.1.length }))

end Input

end Tui

------------------------------------------------------------
-- Drawing
------------------------------------------------------------

namespace Tui

/- The lines so far, the one being drawn, and the place. -/
structure Drawing where
  done : List Row
  last : Row
  place : Nat

namespace Drawing

def start : Drawing where
  done := []
  last := []
  place := 0

def push
    (d : Drawing)
    (c : Cell) : Drawing :=
  { d with last := d.last ++ [c] }

def newline
    (d : Drawing) : Drawing :=
  { d with
    done := d.done ++ [d.last]
    last := [] }

end Drawing

/- The cursor past the end of a line. -/
def cursorCell
    (cursorStyle : Style) : Cell where
  text := [' ']
  style := cursorStyle
  sticky := true

def isNewline
    (g : List Char) : Bool :=
  g = ['\n'] ∨ g = ['\r', '\n']

/- A cluster of the text drawn, in reverse at the cursor. -/
def Drawing.cluster
    (cursor : Nat)
    (style : Style)
    (d : Drawing)
    (g : List Char) : Drawing :=
  let cursorStyle := style.withModifier Style.reversed
  let here := d.place = cursor
  let d := { d with place := d.place + g.length }
  if isNewline g then
    (if here then d.push (cursorCell cursorStyle)
    else d).newline
  else
    d.push
      { text := g
        style := if here then cursorStyle else style
        sticky := here }

variable (u : Unicode)

namespace Input

/- The lines of the text, with the cursor on one of them. -/
def draw
    (i : Input)
    (style : Style) : Drawing :=
  let cursorStyle := style.withModifier Style.reversed
  let d :=
    (u.graphemes.clusters i.text).foldl
      (Drawing.cluster i.cursor style) .start
  if d.place ≤ i.cursor then d.push (cursorCell cursorStyle)
  else d

def rows
    (i : Input)
    (width : Nat)
    (style : Style) : List Line :=
  let d := i.draw u style
  ((d.done ++ [d.last]).flatMap
      (fun cells => wrapCells u cells width false)).map
    (fun row => lineOf row .new)

end Input

/- The columns before the reversed span of a line. -/
def reversedColumn
    (col : Nat) : List Span → Option Nat
| [] => none
| span :: rest =>
    if span.style.isReversed then some col
    else reversedColumn (col + u.strWidth span.content) rest

/- The row of the reversed span, and the columns before it. -/
def reversedPlace
    (r : Nat) : List Line → Option (Nat × Nat)
| [] => none
| line :: rest =>
    match reversedColumn u 0 line.spans with
    | some col => some (r, col)
    | none => reversedPlace (r + 1) rest

namespace Input

/- Where the cursor is drawn: its row and its column. -/
def drawnAt
    (i : Input)
    (width : Nat) : Nat × Nat :=
  let rows := i.rows u width .new
  (reversedPlace u 0 rows).getD (rows.length - 1, 0)

end Input

/- The order of the places a cursor is drawn at. -/
def notAfter
    (p q : Nat × Nat) : Bool :=
  p.1 < q.1 ∨ (p.1 = q.1 ∧ p.2 ≤ q.2)

/- The last of some places drawn no later than another. -/
def search
    (bounds : List Nat)
    (drawn : Nat → Nat × Nat)
    (place : Nat × Nat)
    (lo hi : Nat) : Option Nat :=
  if lo < hi then
    let mid := (lo + hi + 1) / 2
    match bounds[mid]? with
    | none => none
    | some b =>
        if notAfter (drawn b) place then
          search bounds drawn place mid hi
        else search bounds drawn place lo (mid - 1)
  else some lo
termination_by hi - lo

namespace Input

/- The cursor put where a click lands. -/
def click
    (i : Input)
    (width row col : Nat) : Option Input :=
  let bounds := i.bounds u
  let drawn := fun b => drawnAt u { i with cursor := b } width
  match bounds[0]? with
  | none => none
  | some first =>
      if !notAfter (drawn first) (row, col) then
        some { i with cursor := 0 }
      else
        (search bounds drawn (row, col) 0
            (bounds.length - 1)).bind
          (fun lo =>
            (bounds[lo]?).map
              (fun b => { i with cursor := b }))

/- The row above, and whether there was one to go to. -/
def up
    (i : Input)
    (width : Nat) : Option (Input × Bool) :=
  let place := i.drawnAt u (max width 1)
  if place.1 = 0 then
    some ({ i with cursor := 0 }, i.cursor ≠ 0)
  else
    (i.click u (max width 1) (place.1 - 1) place.2).map
      (fun i => (i, true))

/- The row below, and whether there was one to go to. -/
def down
    (i : Input)
    (width : Nat) : Option (Input × Bool) :=
  let last := i.text.length
  let place := i.drawnAt u (max width 1)
  let probe := { i with cursor := last }
  if (probe.drawnAt u (max width 1)).1 ≤ place.1 then
    some ({ i with cursor := last }, i.cursor ≠ last)
  else
    (i.click u (max width 1) (place.1 + 1) place.2).map
      (fun i => (i, true))

end Input

end Tui

------------------------------------------------------------
-- Runs
------------------------------------------------------------

namespace Tui

inductive Edit
| set (text : List Char) (cursor : Nat)
| insert (c : Char)
| insertStr (s : List Char)
| newline
| backspace
| delete
| left
| right
| home
| end
| up (width : Nat)
| down (width : Nat)
| click (width row col : Nat)
deriving DecidableEq

variable (u : Unicode)

def Input.apply
    (i : Input) : Edit → Option Input
| .set text cursor => some (.set u text cursor)
| .insert c => i.insert u c
| .insertStr s => i.insertStr u s
| .newline => i.newline u
| .backspace => i.backspace u
| .delete => i.delete u
| .left => some (i.left u)
| .right => some (i.right u)
| .home => i.home
| .end => i.end
| .up width => (i.up u width).map Prod.fst
| .down width => (i.down u width).map Prod.fst
| .click width row col => i.click u width row col

/- Every sequence of edits, to where an operation fails. -/
def entry : StepMachine (Option Input) Edit Unit where
  step i edit := (i.bind (fun i => i.apply u edit), ())

end Tui
