import AgentWays.Tui.RestsBetween
import AgentWays.Tui.Spots

/-
  Where the text entry draws its cursor: after the rows of
  the lines before, and after the cells before it on its own.

  Key definitions include:
    * `Tui.Unicode.Spaced`
    * `Tui.Drawing.passed`
    * `Tui.cursorPlace`

  Main declarations:
    * `Tui.draw_lines`
    * `Tui.drawnAt_eq`
-/

------------------------------------------------------------
-- Away From The Cursor
------------------------------------------------------------

namespace Tui

/- A cluster as it is drawn away from the cursor. -/
def plainCell
    (g : List Char) : Cell where
  text := g
  style := .new
  sticky := false

/- The clusters up to the end of their first line. -/
def lineRest
    (gs : List (List Char)) : List (List Char) :=
  gs.takeWhile (fun g => !isNewline g)

/- The clusters from the start of their last line. -/
def lineBegun
    (gs : List (List Char)) : List (List Char) :=
  gs.rtakeWhile (fun g => !isNewline g)

namespace Drawing

/- A cluster drawn that the cursor is not at. -/
def passed
    (d : Drawing)
    (g : List Char) : Drawing :=
  let d := { d with place := d.place + g.length }
  if isNewline g then d.newline else d.push (plainCell g)

/- The lines of a drawing. -/
def lines
    (d : Drawing) : List Row :=
  d.done ++ [d.last]

theorem passed_of_newline
    (d : Drawing)
    {g : List Char}
    (hNewline : isNewline g = true) :
    d.passed g =
      { done := d.done ++ [d.last]
        last := []
        place := d.place + g.length } := by
  unfold passed
  exact if_pos hNewline

theorem passed_of_not_newline
    (d : Drawing)
    {g : List Char}
    (hNewline : ¬ isNewline g = true) :
    d.passed g =
      { done := d.done
        last := d.last ++ [plainCell g]
        place := d.place + g.length } := by
  unfold passed
  exact if_neg hNewline

theorem cluster_of_ne
    {d : Drawing}
    {cursor : Nat}
    (hAway : d.place ≠ cursor)
    (g : List Char) :
    d.cluster cursor .new g = d.passed g := by
  simp [cluster, passed, plainCell, hAway]

@[simp] theorem place_passed
    (d : Drawing)
    (g : List Char) :
    (d.passed g).place = d.place + g.length := by
  by_cases hNewline : isNewline g = true
  · rw [passed_of_newline d hNewline]
  · rw [passed_of_not_newline d hNewline]

theorem place_foldl_passed
    (d : Drawing)
    (gs : List (List Char)) :
    (gs.foldl passed d).place =
      d.place + gs.flatten.length := by
  induction gs generalizing d with
  | nil => rfl
  | cons g rest ih =>
      rw [List.foldl_cons, ih, place_passed, List.flatten_cons,
        List.length_append, Nat.add_assoc]

/- Clusters that all lie before the cursor, or all after it. -/
theorem foldl_cluster_eq
    {cursor : Nat}
    (d : Drawing)
    {gs : List (List Char)}
    (hNonempty : [] ∉ gs)
    (hApart :
      d.place + gs.flatten.length ≤ cursor ∨
        cursor < d.place) :
    gs.foldl (cluster cursor .new) d = gs.foldl passed d := by
  induction gs generalizing d with
  | nil => rfl
  | cons g rest ih =>
      have hG : 0 < g.length := by
        refine List.length_pos_of_ne_nil ?_
        rintro rfl
        exact hNonempty List.mem_cons_self
      rw [List.flatten_cons, List.length_append] at hApart
      rw [List.foldl_cons, List.foldl_cons,
        cluster_of_ne (by omega)]
      apply ih
      · exact fun hMem =>
          hNonempty (List.mem_cons_of_mem g hMem)
      · rw [place_passed]
        omega

/- Later clusters add to the last line, and lines after it. -/
theorem lines_foldl_passed
    (d : Drawing)
    (gs : List (List Char)) :
    ∃ later,
      (gs.foldl passed d).lines =
        d.done ++
          (d.last ++ (lineRest gs).map plainCell) :: later := by
  unfold lines
  induction gs generalizing d with
  | nil => exact ⟨[], by simp [lineRest]⟩
  | cons g rest ih =>
      rcases ih (d.passed g) with ⟨later, hLines⟩
      rw [List.foldl_cons, hLines]
      by_cases hNewline : isNewline g = true
      · rw [passed_of_newline d hNewline]
        refine ⟨(lineRest rest).map plainCell :: later, ?_⟩
        simp [lineRest, hNewline]
      · rw [passed_of_not_newline d hNewline]
        refine ⟨later, ?_⟩
        simp [lineRest, hNewline]

theorem last_foldl_passed
    (gs : List (List Char)) :
    (gs.foldl passed .start).last =
      (lineBegun gs).map plainCell := by
  unfold lineBegun
  induction gs using List.reverseRecOn with
  | nil => rfl
  | append_singleton rest g ih =>
      rw [List.foldl_append, List.foldl_cons, List.foldl_nil,
        List.rtakeWhile_concat]
      by_cases hNewline : isNewline g = true
      · rw [passed_of_newline _ hNewline]
        simp [hNewline]
      · rw [passed_of_not_newline _ hNewline, ih]
        simp [hNewline]

/- Every cell drawn away from the cursor is in the text's style. -/
theorem style_of_mem_foldl_passed
    {gs : List (List Char)}
    {c : Cell}
    (hMem : c ∈ (gs.foldl passed .start).cells) :
    c.style = .new := by
  unfold cells at hMem
  induction gs using List.reverseRecOn with
  | nil => cases hMem
  | append_singleton rest g ih =>
      rw [List.foldl_append, List.foldl_cons, List.foldl_nil]
        at hMem
      by_cases hNewline : isNewline g = true
      · rw [passed_of_newline _ hNewline] at hMem
        apply ih
        simpa using hMem
      · rw [passed_of_not_newline _ hNewline] at hMem
        rw [← List.append_assoc] at hMem
        rcases List.mem_append.mp hMem with hOld | hNew
        · exact ih hOld
        · rw [List.mem_singleton.mp hNew]
          rfl

end Drawing

end Tui

------------------------------------------------------------
-- The Lines Of A Drawing
------------------------------------------------------------

namespace Tui

variable {u : Unicode} {text : List Char}
variable {first second : List (List Char)}

/- The style of the cursor. -/
def cursorStyle : Style :=
  Style.new.withModifier Style.reversed

/- The cursor is at the first cluster that is left, if any. -/
theorem draw_lines
    (hSplit : u.graphemes.clusters text = first ++ second) :
    ∃ later,
      (Input.draw u ⟨text, first.flatten.length⟩ .new).lines =
        (first.foldl Drawing.passed .start).done ++
          ((first.foldl Drawing.passed .start).last ++
            shown cursorStyle
                ((lineRest second).map plainCell) ::
              ((lineRest second).map plainCell).tail) ::
            later := by
  have hNonempty := u.graphemes.nonempty text
  rw [hSplit] at hNonempty
  have hFirst :=
    @Drawing.foldl_cluster_eq first.flatten.length .start first
      (fun hMem => hNonempty (List.mem_append_left second hMem))
      (Or.inl (by simp [Drawing.start]))
  have hPlace := Drawing.place_foldl_passed .start first
  unfold Input.draw
  rw [hSplit, List.foldl_append, hFirst]
  dsimp only
  generalize first.foldl Drawing.passed .start = d at hPlace ⊢
  have hHere : d.place = first.flatten.length := by
    rw [hPlace]
    exact Nat.zero_add _
  cases second with
  | nil =>
      rw [List.foldl_nil, if_pos (Nat.le_of_eq hHere)]
      exact ⟨[], rfl⟩
  | cons g rest =>
      have hG : 0 < g.length := by
        refine List.length_pos_of_ne_nil ?_
        rintro rfl
        exact hNonempty (by simp)
      have hRest : [] ∉ rest :=
        fun hMem => hNonempty (by simp [hMem])
      have hNext :=
        Drawing.place_cluster .new first.flatten.length d g
      rw [List.foldl_cons,
        Drawing.foldl_cluster_eq _ hRest (Or.inr (by omega)),
        if_neg (by
          rw [Drawing.place_foldl_passed]
          omega)]
      rcases
        Drawing.lines_foldl_passed
          (d.cluster first.flatten.length .new g) rest with
        ⟨later, hLines⟩
      rw [hLines]
      by_cases hNewline : isNewline g = true
      · refine ⟨(lineRest rest).map plainCell :: later, ?_⟩
        simp [Drawing.cluster, hHere, hNewline, lineRest,
          Drawing.newline, Drawing.push, cursorCell, shown,
          cursorStyle]
      · refine ⟨later, ?_⟩
        simp [Drawing.cluster, hHere, hNewline, lineRest,
          Drawing.push, shown, cursorStyle, plainCell]

end Tui

------------------------------------------------------------
-- The Spans Of A Row
------------------------------------------------------------

namespace Tui

variable {u : Unicode}

def textOf
    (cells : List Cell) : List Char :=
  (cells.map Cell.text).flatten

@[simp] theorem textOf_concat
    (cells : List Cell)
    (c : Cell) :
    textOf (cells ++ [c]) = textOf cells ++ c.text := by
  simp [textOf]

/- Cells in the text's own style. -/
def Unstyled
    (cells : List Cell) : Prop :=
  ∀ c ∈ cells, c.style = .new

theorem isReversed_cursorStyle :
    cursorStyle.isReversed = true :=
  isReversed_withModifier .new

theorem cursorStyle_ne :
    Style.new ≠ cursorStyle := by
  intro hStyle
  have hReversed := isReversed_cursorStyle
  rw [← hStyle] at hReversed
  cases hReversed

/- Cells in one style are one span. -/
theorem spans_of_unstyled
    {row : Row}
    (hUnstyled : Unstyled row) :
    row.foldl pushSpan [] =
      if row = [] then []
      else [{ content := textOf row, style := .new }] := by
  induction row using List.reverseRecOn with
  | nil => rfl
  | append_singleton rest c ih =>
      have hC : c.style = .new := hUnstyled c (by simp)
      have hRest : Unstyled rest :=
        fun x hMem => hUnstyled x (List.mem_append_left [c] hMem)
      have hSome : rest ++ [c] ≠ [] := by simp
      rw [List.foldl_append, List.foldl_cons, List.foldl_nil,
        ih hRest, if_neg hSome, textOf_concat, pushSpan]
      by_cases hNil : rest = []
      · rw [if_pos hNil, hNil]
        simp [hC, textOf]
      · rw [if_neg hNil]
        simp [hC]

/- Cells after a span change no more than its text. -/
theorem foldl_pushSpan_concat
    (earlier : List Span)
    (last : Span)
    (more : Row) :
    ∃ content later,
      more.foldl pushSpan (earlier ++ [last]) =
        earlier ++ { last with content := content } :: later := by
  induction more using List.reverseRecOn with
  | nil => exact ⟨last.content, [], rfl⟩
  | append_singleton rest c ih =>
      rcases ih with ⟨content, later, hSpans⟩
      rw [List.foldl_append, hSpans, List.foldl_cons,
        List.foldl_nil]
      rcases
        pushSpan_cases
          (earlier ++ { last with content := content } :: later)
          c with
        ⟨A, s, hBefore, hStyle, hPush⟩ | hPush
      · rw [hPush]
        rcases List.eq_nil_or_concat later with
          rfl | ⟨B, t, rfl⟩
        · rcases List.append_inj' hBefore rfl with ⟨rfl, hLast⟩
          rw [← List.singleton_inj.mp hLast]
          exact ⟨content ++ c.text, [], rfl⟩
        · rw [List.concat_eq_append, ← List.cons_append,
            ← List.append_assoc] at hBefore
          rw [← (List.append_inj' hBefore rfl).1,
            List.append_assoc, List.cons_append]
          exact ⟨content, _, rfl⟩
      · rw [hPush, List.append_assoc, List.cons_append]
        exact ⟨content, _, rfl⟩

/- The columns before the cursor, on the row that holds it. -/
theorem reversedColumn_cursor
    (hEmpty : u.strWidth [] = 0)
    {row : Row}
    (hUnstyled : Unstyled row)
    {c : Cell}
    (hC : c.style = cursorStyle)
    (more : Row) :
    reversedColumn u 0 (lineOf (row ++ c :: more) .new).spans =
      some (u.strWidth (textOf row)) := by
  have hHere :
      pushSpan (row.foldl pushSpan []) c =
        row.foldl pushSpan [] ++
          [{ content := c.text, style := c.style }] := by
    rw [spans_of_unstyled hUnstyled, pushSpan]
    by_cases hNil : row = []
    · rw [if_pos hNil]
      rfl
    · rw [if_neg hNil, hC]
      simp [cursorStyle_ne]
  rcases
    foldl_pushSpan_concat (row.foldl pushSpan [])
      { content := c.text, style := c.style } more with
    ⟨content, later, hSpans⟩
  unfold lineOf
  dsimp only
  rw [List.foldl_append, List.foldl_cons, hHere, hSpans,
    spans_of_unstyled hUnstyled]
  by_cases hNil : row = []
  · rw [if_pos hNil, hNil]
    simp [reversedColumn, hC, isReversed_cursorStyle, textOf,
      hEmpty]
  · rw [if_neg hNil]
    have hPlain : Style.new.isReversed = false := rfl
    simp [reversedColumn, hC, isReversed_cursorStyle, hPlain]

theorem reversedColumn_of_unstyled
    {row : Row}
    (hUnstyled : Unstyled row)
    (col : Nat) :
    reversedColumn u col (lineOf row .new).spans = none := by
  have hPlain : Style.new.isReversed = false := rfl
  unfold lineOf
  dsimp only
  rw [spans_of_unstyled hUnstyled]
  split
  · rfl
  · simp [reversedColumn, hPlain]

/- Rows without the cursor are passed over. -/
theorem reversedPlace_append
    {rows : List Row}
    (hUnstyled : Unstyled rows.flatten)
    (r : Nat)
    (more : List Line) :
    reversedPlace u r
        (rows.map (fun row => lineOf row .new) ++ more) =
      reversedPlace u (r + rows.length) more := by
  induction rows generalizing r with
  | nil => rfl
  | cons row rest ih =>
      have hRow : Unstyled row :=
        fun c hMem => hUnstyled c (by simp [hMem])
      have hRest : Unstyled rest.flatten :=
        fun c hMem =>
          hUnstyled c (List.mem_append_right row hMem)
      rw [List.map_cons, List.cons_append, reversedPlace,
        reversedColumn_of_unstyled hRow]
      dsimp only
      rw [ih hRest, List.length_cons, Nat.add_assoc,
        Nat.add_comm 1]

end Tui

------------------------------------------------------------
-- The Place Of The Cursor
------------------------------------------------------------

namespace Tui

variable {u : Unicode} {width : Nat} {text : List Char}
variable {first second : List (List Char)}

/- A space joins no other character in what a text measures. -/
structure Unicode.Spaced
    (u : Unicode) : Prop where
  empty : u.strWidth [] = 0
  space : ∀ s, u.strWidth (s ++ [' ']) = u.strWidth s + 1

theorem Unicode.Spaced.one
    (hSpaced : u.Spaced) :
    u.strWidth [' '] = 1 := by
  have hSpace := hSpaced.space []
  rwa [hSpaced.empty] at hSpace

/- The rows of some lines. -/
def rowsOf
    (u : Unicode)
    (width : Nat)
    (lines : List Row) : List Row :=
  lines.flatMap (fun cells => wrapCells u cells width false)

/- Where the cursor's line is put, up to the cursor. -/
def lineSpot
    (u : Unicode)
    (width : Nat)
    (first second : List (List Char)) : Wrapping :=
  (((lineBegun first).map plainCell).foldl
      (Reading.step u width) .start).cursorSpot
    u width cursorStyle ((lineRest second).map plainCell)

/- The rows and the columns before a cursor at a boundary. -/
def cursorPlace
    (u : Unicode)
    (width : Nat)
    (first second : List (List Char)) : Nat × Nat :=
  let p := lineSpot u width first second
  ((rowsOf u width
      (first.foldl Drawing.passed .start).done).length +
      p.rows.length,
    u.strWidth (textOf p.row))

theorem Lays.mem
    {rows : List Row}
    {cells : List Cell}
    {c : Cell}
    (hLays : Lays rows cells)
    (hMem : c ∈ rows.flatten) :
    c ∈ cells := by
  induction hLays with
  | nil => exact hMem
  | cons row dropped hDropped hRest ih =>
      rw [List.flatten_cons] at hMem
      rw [List.append_assoc]
      rcases List.mem_append.mp hMem with hRow | hLater
      · exact List.mem_append_left _ hRow
      · exact
          List.mem_append_right _
            (List.mem_append_right _ (ih hLater))

theorem laid_lineSpot
    (u : Unicode)
    (width : Nat)
    (first second : List (List Char)) :
    Laid (lineSpot u width first second)
      ((lineBegun first).map plainCell) :=
  (holds_line u width _).laid_spot _ _

theorem measured_lineSpot
    (u : Unicode)
    (width : Nat)
    (first second : List (List Char)) :
    (lineSpot u width first second).Measured u width :=
  (holds_line u width _).measured_spot _ _

theorem unstyled_lineSpot
    (u : Unicode)
    (width : Nat)
    (first second : List (List Char)) :
    Unstyled
      ((lineSpot u width first second).rows.flatten ++
        (lineSpot u width first second).row) := by
  rcases laid_lineSpot u width first second with
    ⟨done, hLays, hCells⟩
  intro c hMem
  have hPlain : c ∈ (lineBegun first).map plainCell := by
    rw [hCells]
    rcases List.mem_append.mp hMem with hRows | hRow
    · exact List.mem_append_left _ (hLays.mem hRows)
    · exact List.mem_append_right _ hRow
  rcases List.mem_map.mp hPlain with ⟨g, -, rfl⟩
  rfl

/- The cursor's line: its rows, and the cursor on one of them. -/
theorem wrapCells_cursor
    (hWidth : 1 ≤ width)
    (first second : List (List Char)) :
    ∃ more later,
      wrapCells u
          ((lineBegun first).map plainCell ++
            shown cursorStyle
                ((lineRest second).map plainCell) ::
              ((lineRest second).map plainCell).tail)
          width false =
        (lineSpot u width first second).rows ++
          ((lineSpot u width first second).row ++
            shown cursorStyle
                ((lineRest second).map plainCell) ::
              more) :: later := by
  rcases
    @Reading.later_spot u width _
      (((lineBegun first).map plainCell).foldl
        (Reading.step u width) .start)
      ((lineRest second).map plainCell).tail
      (isBreak_shown cursorStyle
        ((lineRest second).map plainCell)) with
    ⟨more, later, hRows⟩
  refine ⟨more, later, ?_⟩
  unfold wrapCells
  rw [Nat.max_eq_left hWidth]
  dsimp only
  rw [if_neg (by simp), wrapFrom_start, List.foldl_append, hRows]
  simp [Wrapping.push, lineSpot, Reading.cursorSpot]

/- A cursor at a boundary is drawn at its place. -/
theorem drawnAt_eq
    (hSpaced : u.Spaced)
    (hWidth : 1 ≤ width)
    (hSplit : u.graphemes.clusters text = first ++ second) :
    Input.drawnAt u ⟨text, first.flatten.length⟩ width =
      cursorPlace u width first second := by
  rcases draw_lines hSplit with ⟨later, hLines⟩
  rcases
    @wrapCells_cursor u width hWidth first second with
    ⟨more, below, hWrap⟩
  have hDone :
      Unstyled
        (rowsOf u width
          (first.foldl Drawing.passed .start).done).flatten := by
    intro c hMem
    apply @Drawing.style_of_mem_foldl_passed first
    exact
      List.mem_append_left _ (mem_of_mem_flatMap_wrapCells hMem)
  have hSpot := unstyled_lineSpot u width first second
  have hRows :
      Unstyled
        (rowsOf u width
            (first.foldl Drawing.passed .start).done ++
          (lineSpot u width first second).rows).flatten := by
    intro c hMem
    rw [List.flatten_append] at hMem
    rcases List.mem_append.mp hMem with hEarlier | hHere
    · exact hDone c hEarlier
    · exact hSpot c (List.mem_append_left _ hHere)
  have hRow : Unstyled (lineSpot u width first second).row :=
    fun c hMem => hSpot c (List.mem_append_right _ hMem)
  unfold Input.drawnAt Input.rows
  dsimp only
  rw [show
      (Input.draw u ⟨text, first.flatten.length⟩ .new).done ++
          [(Input.draw u ⟨text, first.flatten.length⟩
            .new).last] = _ from hLines,
    Drawing.last_foldl_passed, List.flatMap_append,
    List.flatMap_cons, hWrap, List.append_assoc,
    ← List.append_assoc, List.map_append, ← rowsOf,
    reversedPlace_append hRows]
  rw [List.cons_append, List.map_cons, reversedPlace,
    reversedColumn_cursor hSpaced.empty hRow rfl]
  simp [cursorPlace]

end Tui
