import AgentWays.Lib.Clusters
import Mathlib.Algebra.BigOperators.Group.List.Basic
import Mathlib.Data.List.DropRight
import Mathlib.Algebra.GroupWithZero.Nat

/-
  The wrap of agent-tui: a run of cells, each one grapheme
  cluster with its style, cut into rows of a width.

  What the clusters of a text are, and how many columns a
  text takes, is for the Unicode libraries to say.

  Key definitions include:
    * `Tui.Cell`
    * `Tui.lineOf`
    * `Tui.wrapCells`

  Main declarations:
    * `Tui.filter_wrapCells`
    * `Tui.countP_lineOf`
-/

------------------------------------------------------------
-- Cells
------------------------------------------------------------

namespace Tui

/- What the Unicode libraries say of a text. -/
structure Unicode where
  graphemes : Segmentation Char
  strWidth : List Char → Nat

/- Colors, and the modifiers put on and taken off. -/
structure Style where
  fg : Option Nat
  bg : Option Nat
  underlineColor : Option Nat
  addModifier : UInt16
  subModifier : UInt16
deriving DecidableEq

namespace Style

def new : Style where
  fg := none
  bg := none
  underlineColor := none
  addModifier := 0
  subModifier := 0

/- `Modifier::REVERSED`. -/
def reversed : UInt16 := 64

/- `Style::add_modifier`. -/
def withModifier
    (style : Style)
    (modifier : UInt16) : Style :=
  { style with
    addModifier := style.addModifier ||| modifier
    subModifier := style.subModifier &&& ~~~modifier }

def isReversed
    (style : Style) : Bool :=
  style.addModifier &&& reversed = reversed

end Style

/- A cluster of a line; a sticky one is never a break. -/
structure Cell where
  text : List Char
  style : Style
  sticky : Bool
deriving DecidableEq

namespace Cell

def width
    (u : Unicode)
    (c : Cell) : Nat :=
  u.strWidth c.text

def isBreak
    (c : Cell) : Bool :=
  !c.sticky && c.text = [' ']

def isLone
    (c : Cell) : Bool :=
  c.sticky && c.text = [' ']

end Cell

abbrev Row := List Cell

structure Span where
  content : List Char
  style : Style
deriving DecidableEq

structure Line where
  spans : List Span
  style : Style
deriving DecidableEq

/- A cell put at the end of a line, in the last span's style. -/
def pushSpan
    (spans : List Span)
    (c : Cell) : List Span :=
  match spans.getLast? with
  | some last =>
      if last.style = c.style then
        spans.dropLast ++
          [{ last with content := last.content ++ c.text }]
      else spans ++ [{ content := c.text, style := c.style }]
  | none => [{ content := c.text, style := c.style }]

/- A row of cells as a line. -/
def lineOf
    (cells : Row)
    (base : Style) : Line where
  spans := cells.foldl pushSpan []
  style := base

end Tui

------------------------------------------------------------
-- Wrapping
------------------------------------------------------------

namespace Tui

variable (u : Unicode)

/- The next word: the cells to a break or to a lone cell. -/
def wordOf : List Cell → List Cell
| [] => []
| c :: rest =>
    if c.isBreak then []
    else if c.isLone then [c]
    else
      c :: rest.takeWhile (fun c => !c.isBreak && !c.isLone)

/- The rows so far, the one being filled, and its columns. -/
structure Wrapping where
  rows : List Row
  row : Row
  used : Nat

namespace Wrapping

def start : Wrapping where
  rows := []
  row := []
  used := 0

def endRow
    (w : Wrapping) : Wrapping where
  rows := w.rows ++ [w.row]
  row := []
  used := 0

def push
    (w : Wrapping)
    (c : Cell) : Wrapping :=
  { w with
    row := w.row ++ [c]
    used := w.used + c.width u }

/- Spaces that open a row. -/
def space
    (width : Nat)
    (w : Wrapping)
    (c : Cell) : Wrapping :=
  if w.used + c.width u > width then w.endRow.push u c
  else w.push u c

/- A word's cluster, on a row of its own where none fits. -/
def cluster
    (width : Nat)
    (w : Wrapping)
    (c : Cell) : Wrapping :=
  if w.used + c.width u > width ∧ w.used > 0 then
    w.endRow.push u c
  else w.push u c

/- The next word, after the spaces before it. -/
def word
    (width : Nat)
    (w : Wrapping)
    (spaces cells : List Cell) : Wrapping :=
  let sw := (spaces.map (Cell.width u)).sum
  let ww := (cells.map (Cell.width u)).sum
  if w.used + sw + ww ≤ width then
    { w with
      row := w.row ++ spaces ++ cells
      used := w.used + (sw + ww) }
  else
    let w :=
      if w.used > 0 then w.endRow
      else spaces.foldl (space u width) w
    cells.foldl (cluster u width) w

end Wrapping

theorem length_wordOf_pos
    {c : Cell}
    (rest : List Cell)
    (hBreak : c.isBreak = false) :
    0 < (wordOf (c :: rest)).length := by
  simp only [wordOf, hBreak, Bool.false_eq_true, if_false]
  split <;> simp

/- Each word is taken from the cells that are left. -/
theorem length_drop_wordOf
    {cells : List Cell}
    (hCells : cells ≠ []) :
    ((cells.dropWhile Cell.isBreak).drop
        (wordOf (cells.dropWhile Cell.isBreak)).length).length <
      cells.length := by
  rcases List.exists_cons_of_ne_nil hCells with
    ⟨c, rest, rfl⟩
  rw [List.length_drop]
  cases hBreak : c.isBreak with
  | true =>
      have hLe :=
        (List.dropWhile_suffix (l := rest)
          Cell.isBreak).length_le
      rw [List.dropWhile_cons_of_pos hBreak,
        List.length_cons]
      omega
  | false =>
      have hPos := length_wordOf_pos rest hBreak
      rw [List.dropWhile_cons_of_neg (by simp [hBreak])]
      simp only [List.length_cons]
      omega

/- The words of a run of cells, put on rows one by one. -/
def wrapFrom
    (width : Nat)
    (trim : Bool)
    (w : Wrapping)
    (cells : List Cell) : Wrapping :=
  if _hCells : cells = [] then w
  else
    let spaces := cells.takeWhile Cell.isBreak
    let after := cells.dropWhile Cell.isBreak
    let word := wordOf after
    if trim && word.isEmpty && !w.row.isEmpty then w
    else
      wrapFrom width trim (w.word u width spaces word)
        (after.drop word.length)
termination_by cells.length
decreasing_by exact length_drop_wordOf _hCells

/- A run of cells with no newline in it, as rows. -/
def wrapCells
    (cells : List Cell)
    (width : Nat)
    (trim : Bool) : List Row :=
  let width := max width 1
  let w := wrapFrom u width trim .start cells
  let rows := w.rows ++ [w.row]
  if trim then rows.map (List.rdropWhile Cell.isBreak)
  else rows

end Tui

------------------------------------------------------------
-- The Cells Of Rows
------------------------------------------------------------

namespace Tui

variable {u : Unicode} {width : Nat}

namespace Wrapping

/- The cells that are on the rows, in order. -/
def cells
    (w : Wrapping) : List Cell :=
  w.rows.flatten ++ w.row

@[simp] theorem cells_endRow
    (w : Wrapping) :
    w.endRow.cells = w.cells := by
  simp [cells, endRow]

@[simp] theorem cells_push
    (w : Wrapping)
    (c : Cell) :
    (w.push u c).cells = w.cells ++ [c] := by
  simp [cells, push]

@[simp] theorem cells_space
    (w : Wrapping)
    (c : Cell) :
    (space u width w c).cells = w.cells ++ [c] := by
  unfold space
  split <;> simp

@[simp] theorem cells_cluster
    (w : Wrapping)
    (c : Cell) :
    (cluster u width w c).cells = w.cells ++ [c] := by
  unfold cluster
  split <;> simp

theorem cells_foldl
    {step : Wrapping → Cell → Wrapping}
    (hStep : ∀ w c, (step w c).cells = w.cells ++ [c])
    (w : Wrapping)
    (more : List Cell) :
    (more.foldl step w).cells = w.cells ++ more := by
  induction more generalizing w with
  | nil => simp
  | cons c rest ih =>
      rw [List.foldl_cons, ih, hStep, List.append_assoc]
      rfl

/- A word is put whole, and all its spaces or none. -/
theorem cells_word
    (u : Unicode)
    (width : Nat)
    (w : Wrapping)
    (spaces more : List Cell) :
    (w.word u width spaces more).cells =
        w.cells ++ spaces ++ more ∨
      (w.word u width spaces more).cells =
        w.cells ++ more := by
  unfold word
  simp only
  split
  · refine Or.inl ?_
    simp [cells]
  · rw [cells_foldl cells_cluster]
    split
    · refine Or.inr ?_
      rw [cells_endRow]
    · refine Or.inl ?_
      rw [cells_foldl cells_space]

end Wrapping

theorem isPrefix_wordOf
    (cells : List Cell) :
    wordOf cells <+: cells := by
  cases cells with
  | nil => exact List.prefix_refl _
  | cons c rest =>
      rw [wordOf]
      by_cases hBreak : c.isBreak
      · rw [if_pos hBreak]
        exact List.nil_prefix
      · rw [if_neg hBreak]
        by_cases hLone : c.isLone
        · rw [if_pos hLone]
          exact ⟨rest, rfl⟩
        · rw [if_neg hLone]
          exact
            List.cons_prefix_cons.mpr
              ⟨rfl, List.takeWhile_prefix _⟩

/- The spaces, the word and the cells after it. -/
theorem split_word
    (cells : List Cell) :
    cells.takeWhile Cell.isBreak ++
        (wordOf (cells.dropWhile Cell.isBreak) ++
          (cells.dropWhile Cell.isBreak).drop
            (wordOf (cells.dropWhile Cell.isBreak)).length) =
      cells := by
  rw [List.prefix_iff_eq_append.mp (isPrefix_wordOf _),
    List.takeWhile_append_dropWhile]

theorem filter_takeWhile_isBreak
    (cells : List Cell) :
    (cells.takeWhile Cell.isBreak).filter
        (fun c => !c.isBreak) = [] := by
  rw [List.filter_eq_nil_iff]
  intro c hMember
  have hBreak := List.mem_takeWhile_imp hMember
  simp [hBreak]

/- Rows keep every cell that is no break, in order. -/
theorem filter_wrapFrom
    (w : Wrapping)
    (cells : List Cell) :
    (wrapFrom u width false w cells).cells.filter
        (fun c => !c.isBreak) =
      (w.cells ++ cells).filter (fun c => !c.isBreak) := by
  induction w, cells using wrapFrom.induct u width false with
  | case1 w =>
      rw [wrapFrom, dif_pos rfl, List.append_nil]
  | case2 w cells hCells after word hTrim =>
      cases hTrim
  | case3 w cells hCells spaces after word hTrim ih =>
      have hSplit := split_word cells
      have hSpaces := filter_takeWhile_isBreak cells
      rw [wrapFrom, dif_neg hCells]
      simp only [Bool.false_and, Bool.false_eq_true, if_false]
      rw [ih]
      conv_rhs => rw [← hSplit]
      rcases
        w.cells_word u width spaces word with
        hAll | hNone
      · rw [hAll]
        simp [spaces, word, after, List.append_assoc]
      · rw [hNone]
        simp only [List.filter_append, hSpaces]
        simp [word, after]

/- Rows hold only cells they were given. -/
theorem mem_cells_wrapFrom
    {trim : Bool}
    (w : Wrapping)
    (cells : List Cell)
    {c : Cell}
    (hMember : c ∈ (wrapFrom u width trim w cells).cells) :
    c ∈ w.cells ++ cells := by
  induction w, cells using wrapFrom.induct u width trim with
  | case1 w =>
      rw [wrapFrom, dif_pos rfl] at hMember
      simpa using hMember
  | case2 w cells hCells after word hTrim =>
      rw [wrapFrom, dif_neg hCells] at hMember
      simp only at hMember
      rw [if_pos hTrim] at hMember
      exact List.mem_append_left cells hMember
  | case3 w cells hCells spaces after word hTrim ih =>
      rw [wrapFrom, dif_neg hCells] at hMember
      simp only at hMember
      rw [if_neg hTrim] at hMember
      have hLater := ih hMember
      have hSplit := split_word cells
      rw [← hSplit]
      rcases
        w.cells_word u width spaces word with
        hAll | hNone
      · rw [hAll] at hLater
        simpa [spaces, word, after, or_assoc] using hLater
      · rw [hNone] at hLater
        simp only [List.mem_append] at hLater ⊢
        rcases hLater with (hOld | hWord) | hRest
        · exact Or.inl hOld
        · exact Or.inr (Or.inr (Or.inl hWord))
        · exact Or.inr (Or.inr (Or.inr hRest))

theorem flatten_wrapCells
    (cells : List Cell)
    (width : Nat) :
    (wrapCells u cells width false).flatten =
      (wrapFrom u (max width 1) false .start cells).cells := by
  simp [wrapCells, Wrapping.cells]

/- A wrap that trims nothing keeps what is no break. -/
theorem filter_wrapCells
    (cells : List Cell)
    (width : Nat) :
    (wrapCells u cells width false).flatten.filter
        (fun c => !c.isBreak) =
      cells.filter (fun c => !c.isBreak) := by
  rw [flatten_wrapCells, filter_wrapFrom]
  rfl

theorem mem_of_mem_wrapCells
    {cells : List Cell}
    {width : Nat}
    {c : Cell}
    (hMember :
      c ∈ (wrapCells u cells width false).flatten) :
    c ∈ cells := by
  rw [flatten_wrapCells] at hMember
  exact mem_cells_wrapFrom .start cells hMember

end Tui

------------------------------------------------------------
-- Reversed Spans
------------------------------------------------------------

namespace Tui

def Cell.isReversed
    (c : Cell) : Bool :=
  c.style.isReversed

def Span.isReversed
    (s : Span) : Bool :=
  s.style.isReversed

/- A span that a cell joins is in the cell's style. -/
theorem pushSpan_cases
    (spans : List Span)
    (c : Cell) :
    (∃ earlier last,
        spans = earlier ++ [last] ∧ last.style = c.style ∧
          pushSpan spans c =
            earlier ++
              [{ last with content := last.content ++ c.text }]) ∨
      pushSpan spans c =
        spans ++ [{ content := c.text, style := c.style }] := by
  unfold pushSpan
  rcases List.eq_nil_or_concat spans with rfl | ⟨A, last, rfl⟩
  · exact Or.inr rfl
  · rw [List.concat_eq_append]
    simp only [List.getLast?_concat]
    split
    · rename_i hStyle
      exact
        Or.inl ⟨A, last, rfl, hStyle, by simp⟩
    · exact Or.inr rfl

theorem any_foldl_pushSpan
    (spans : List Span)
    (cells : Row) :
    (cells.foldl pushSpan spans).any Span.isReversed =
      (spans.any Span.isReversed || cells.any Cell.isReversed) := by
  induction cells generalizing spans with
  | nil => simp
  | cons c rest ih =>
      rw [List.foldl_cons, ih, List.any_cons, ← Bool.or_assoc]
      congr 1
      rcases pushSpan_cases spans c with
        ⟨A, last, rfl, hStyle, hPush⟩ | hPush
      · rw [hPush]
        simp [Span.isReversed, Cell.isReversed, hStyle]
      · rw [hPush]
        simp [Span.isReversed, Cell.isReversed]

theorem countP_foldl_pushSpan
    (spans : List Span)
    (cells : Row) :
    (cells.foldl pushSpan spans).countP Span.isReversed ≤
      spans.countP Span.isReversed +
        cells.countP Cell.isReversed := by
  induction cells generalizing spans with
  | nil => simp
  | cons c rest ih =>
      rw [List.foldl_cons]
      refine (ih _).trans ?_
      rw [List.countP_cons]
      have hPush :
          (pushSpan spans c).countP Span.isReversed ≤
            spans.countP Span.isReversed +
              if c.isReversed then 1 else 0 := by
        rcases pushSpan_cases spans c with
          ⟨A, last, rfl, hStyle, hPush⟩ | hPush
        · rw [hPush]
          simp only [List.countP_append,
            List.countP_singleton, Span.isReversed]
          exact Nat.le_add_right _ _
        · rw [hPush]
          simp only [List.countP_append,
            List.countP_singleton, Span.isReversed]
          exact Nat.le_refl _
      omega

/- A line has a reversed span for its reversed cell. -/
theorem countP_lineOf
    {cells : Row}
    {base : Style}
    (hLe : cells.countP Cell.isReversed ≤ 1) :
    (lineOf cells base).spans.countP Span.isReversed =
      cells.countP Cell.isReversed := by
  have hSpans := countP_foldl_pushSpan [] cells
  have hAny := any_foldl_pushSpan [] cells
  simp only [List.countP_nil, Nat.zero_add] at hSpans
  simp only [List.any_nil, Bool.false_or] at hAny
  unfold lineOf
  simp only
  have hIff :
      0 < (cells.foldl pushSpan []).countP Span.isReversed ↔
        0 < cells.countP Cell.isReversed := by
    rw [List.countP_pos_iff, List.countP_pos_iff]
    simpa only [List.any_eq_true] using
      Bool.eq_iff_iff.mp hAny
  omega

end Tui
