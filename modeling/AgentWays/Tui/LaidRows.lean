import AgentWays.Tui.Wrap

/-
  The rows of a wrap: the cells they lay, in order, and the
  columns they take.

  Key definitions include:
    * `Tui.Lays`
    * `Tui.Narrow`

  Main declarations:
    * `Tui.laid_wrapFrom`
    * `Tui.measured_wrapFrom`
-/

------------------------------------------------------------
-- Rows Laid In Order
------------------------------------------------------------

namespace Tui

/- The cells that are no breaks. -/
def kept
    (cells : List Cell) : List Cell :=
  cells.filter (fun c => !c.isBreak)

@[simp] theorem kept_append
    (cells more : List Cell) :
    kept (cells ++ more) = kept cells ++ kept more :=
  List.filter_append cells more

@[simp] theorem kept_kept
    (cells : List Cell) :
    kept (kept cells) = kept cells := by
  unfold kept
  rw [List.filter_filter]
  simp

/- Breaks alone. -/
def Breaks
    (cells : List Cell) : Prop :=
  ∀ c ∈ cells, c.isBreak = true

theorem kept_eq_nil_iff
    {cells : List Cell} :
    kept cells = [] ↔ Breaks cells := by
  unfold kept Breaks
  rw [List.filter_eq_nil_iff]
  simp

theorem breaks_nil :
    Breaks [] := by
  intro c hMem
  cases hMem

theorem Breaks.append
    {cells more : List Cell}
    (hBreaks : Breaks cells)
    (hMore : Breaks more) :
    Breaks (cells ++ more) := by
  rw [← kept_eq_nil_iff, kept_append,
    kept_eq_nil_iff.mpr hBreaks, kept_eq_nil_iff.mpr hMore]
  rfl

theorem breaks_takeWhile
    (cells : List Cell) :
    Breaks (cells.takeWhile Cell.isBreak) :=
  fun _ hMem => List.mem_takeWhile_imp hMem

/- Rows, each followed by breaks that are left out. -/
inductive Lays : List Row → List Cell → Prop
| nil : Lays [] []
| cons
    {rows : List Row}
    {cells : List Cell}
    (row : Row)
    (dropped : List Cell)
    (hDropped : Breaks dropped)
    (hRest : Lays rows cells) :
    Lays (row :: rows) (row ++ dropped ++ cells)

namespace Lays

variable {rows rows' : List Row} {cells cells' : List Cell}

theorem append
    (hLays : Lays rows cells)
    (hLays' : Lays rows' cells') :
    Lays (rows ++ rows') (cells ++ cells') := by
  induction hLays with
  | nil => exact hLays'
  | cons row dropped hDropped hRest ih =>
      have hCons := Lays.cons row dropped hDropped ih
      simpa using hCons

theorem single
    {dropped : List Cell}
    (row : Row)
    (hDropped : Breaks dropped) :
    Lays [row] (row ++ dropped) := by
  have hCons := Lays.cons row dropped hDropped Lays.nil
  simpa using hCons

/- What is left out changes nothing that is kept. -/
theorem kept_flatten
    (hLays : Lays rows cells) :
    kept rows.flatten = kept cells := by
  induction hLays with
  | nil => rfl
  | cons row dropped hDropped hRest ih =>
      rw [List.flatten_cons, kept_append, kept_append,
        kept_append, ih, kept_eq_nil_iff.mpr hDropped,
        List.append_nil]

/- Breaks taken from the ends of rows are left out. -/
theorem trimmed
    (hLays : Lays rows cells) :
    Lays (rows.map (List.rdropWhile Cell.isBreak)) cells := by
  induction hLays with
  | nil => exact Lays.nil
  | cons row dropped hDropped hRest ih =>
      have hBreaks :
          Breaks (row.rtakeWhile Cell.isBreak ++ dropped) := by
        apply Breaks.append _ hDropped
        intro c hMem
        exact List.mem_rtakeWhile_imp hMem
      have hCons :=
        Lays.cons (row.rdropWhile Cell.isBreak) _ hBreaks ih
      rw [← List.append_assoc,
        List.rdropWhile_append_rtakeWhile] at hCons
      exact hCons

end Lays

end Tui

------------------------------------------------------------
-- Rows As They Are Filled
------------------------------------------------------------

namespace Tui

variable {u : Unicode} {width : Nat}

/- The cells so far: the rows laid, and the row being filled. -/
def Laid
    (w : Wrapping)
    (cells : List Cell) : Prop :=
  ∃ done, Lays w.rows done ∧ cells = done ++ w.row

namespace Laid

variable {w : Wrapping} {cells : List Cell}

theorem start :
    Laid .start [] :=
  ⟨[], Lays.nil, rfl⟩

/- A row ends, and breaks after it are left out. -/
theorem endRow
    {dropped : List Cell}
    (hLaid : Laid w cells)
    (hDropped : Breaks dropped) :
    Laid w.endRow (cells ++ dropped) := by
  rcases hLaid with ⟨done, hLays, rfl⟩
  refine
    ⟨done ++ (w.row ++ dropped),
      hLays.append (Lays.single w.row hDropped), ?_⟩
  show _ = done ++ (w.row ++ dropped) ++ []
  rw [List.append_nil, List.append_assoc]

theorem push
    (hLaid : Laid w cells)
    (c : Cell) :
    Laid (w.push u c) (cells ++ [c]) := by
  rcases hLaid with ⟨done, hLays, rfl⟩
  refine ⟨done, hLays, ?_⟩
  show _ = done ++ (w.row ++ [c])
  rw [List.append_assoc]

theorem endRow_push
    (hLaid : Laid w cells)
    (c : Cell) :
    Laid (w.endRow.push u c) (cells ++ [c]) := by
  have hEnd := hLaid.endRow breaks_nil
  rw [List.append_nil] at hEnd
  exact hEnd.push c

theorem space
    (hLaid : Laid w cells)
    (c : Cell) :
    Laid (Wrapping.space u width w c) (cells ++ [c]) := by
  unfold Wrapping.space
  split
  · exact hLaid.endRow_push c
  · exact hLaid.push c

theorem cluster
    (hLaid : Laid w cells)
    (c : Cell) :
    Laid (Wrapping.cluster u width w c) (cells ++ [c]) := by
  unfold Wrapping.cluster
  split
  · exact hLaid.endRow_push c
  · exact hLaid.push c

theorem foldl
    {step : Wrapping → Cell → Wrapping}
    (hStep :
      ∀ w cells c, Laid w cells → Laid (step w c) (cells ++ [c]))
    (hLaid : Laid w cells)
    (more : List Cell) :
    Laid (more.foldl step w) (cells ++ more) := by
  induction more generalizing w cells with
  | nil => rwa [List.append_nil]
  | cons c rest ih =>
      have hRest := ih (hStep w cells c hLaid)
      rw [List.append_assoc] at hRest
      exact hRest

/- A word is laid after its spaces, or after a row's end. -/
theorem word
    {spaces : List Cell}
    (hLaid : Laid w cells)
    (hSpaces : Breaks spaces)
    (more : List Cell) :
    Laid (w.word u width spaces more)
      (cells ++ spaces ++ more) := by
  unfold Wrapping.word
  dsimp only
  split
  · rcases hLaid with ⟨done, hLays, rfl⟩
    refine ⟨done, hLays, ?_⟩
    dsimp only
    simp only [List.append_assoc]
  · apply Laid.foldl (fun w cells c hLaid => hLaid.cluster c)
    split
    · exact hLaid.endRow hSpaces
    · exact
        Laid.foldl (fun w cells c hLaid => hLaid.space c) hLaid
          spaces

end Laid

theorem wordOf_eq_nil_iff
    {cells : List Cell}
    (hStarts : cells.head?.all (fun c => !c.isBreak) = true) :
    wordOf cells = [] ↔ cells = [] := by
  cases cells with
  | nil => simp [wordOf]
  | cons c rest =>
      have hBreak : c.isBreak = false := by
        simpa using hStarts
      have hPos := length_wordOf_pos rest hBreak
      constructor
      · intro hNil
        rw [hNil] at hPos
        cases hPos
      · intro hNil
        cases hNil

theorem head?_dropWhile_isBreak
    (cells : List Cell) :
    (cells.dropWhile Cell.isBreak).head?.all
        (fun c => !c.isBreak) = true := by
  induction cells with
  | nil => rfl
  | cons c rest ih =>
      by_cases hBreak : c.isBreak = true
      · rw [List.dropWhile_cons_of_pos hBreak]
        exact ih
      · rw [List.dropWhile_cons_of_neg hBreak]
        simpa using hBreak

/- No word is left once only breaks are. -/
theorem wordOf_dropWhile_eq_nil_iff
    (cells : List Cell) :
    wordOf (cells.dropWhile Cell.isBreak) = [] ↔
      Breaks cells := by
  rw [wordOf_eq_nil_iff (head?_dropWhile_isBreak cells),
    List.dropWhile_eq_nil_iff]
  rfl

/-
  A wrap lays every cell: those left out at the end are the
  breaks that a trimmed text ends in.
-/
theorem laid_wrapFrom
    (trim : Bool)
    (w : Wrapping)
    (cells : List Cell) :
    ∀ done, Laid w done →
      ∃ tail laid,
        Breaks tail ∧ (trim = false → tail = []) ∧
          Laid (wrapFrom u width trim w cells) laid ∧
          done ++ cells = laid ++ tail := by
  induction w, cells using wrapFrom.induct u width trim with
  | case1 w =>
      intro done hLaid
      rw [wrapFrom, dif_pos rfl]
      exact ⟨[], done, breaks_nil, fun _ => rfl, hLaid, rfl⟩
  | case2 w cells hCells after word hTrim =>
      intro done hLaid
      rw [wrapFrom, dif_neg hCells]
      dsimp only
      rw [if_pos hTrim]
      simp only [Bool.and_eq_true, List.isEmpty_iff] at hTrim
      refine ⟨cells, done, ?_, ?_, hLaid, rfl⟩
      · exact (wordOf_dropWhile_eq_nil_iff cells).mp hTrim.1.2
      · intro hNot
        rw [hNot] at hTrim
        cases hTrim.1.1
  | case3 w cells hCells spaces after word hTrim ih =>
      intro done hLaid
      rw [wrapFrom, dif_neg hCells]
      dsimp only
      rw [if_neg hTrim]
      have hWord :=
        @Laid.word u width _ _ _ hLaid (breaks_takeWhile cells)
          (wordOf (cells.dropWhile Cell.isBreak))
      rcases ih _ hWord with
        ⟨tail, laid, hTail, hNot, hEnd, hSplit⟩
      refine ⟨tail, laid, hTail, hNot, hEnd, ?_⟩
      have hCells := split_word cells
      rw [← hSplit, List.append_assoc, List.append_assoc, hCells]

end Tui

------------------------------------------------------------
-- The Width Of Rows
------------------------------------------------------------

namespace Tui

variable {u : Unicode} {width : Nat}

def columns
    (u : Unicode)
    (cells : List Cell) : Nat :=
  (cells.map (Cell.width u)).sum

theorem columns_append
    (cells more : List Cell) :
    columns u (cells ++ more) =
      columns u cells + columns u more := by
  unfold columns
  rw [List.map_append, List.sum_append]

theorem columns_cons
    (c : Cell)
    (cells : List Cell) :
    columns u (c :: cells) = c.width u + columns u cells := by
  unfold columns
  rw [List.map_cons, List.sum_cons]

@[simp] theorem columns_nil :
    columns u [] = 0 :=
  rfl

/- No wider than the width, or one cluster takes columns. -/
def Narrow
    (u : Unicode)
    (width : Nat)
    (row : Row) : Prop :=
  columns u row ≤ width ∨
    (row.filter (fun c => 0 < c.width u)).length = 1

theorem narrow_nil :
    Narrow u width [] :=
  Or.inl (Nat.zero_le width)

theorem filter_width_eq_nil
    {row : Row}
    (hZero : columns u row = 0) :
    row.filter (fun c => decide (0 < c.width u)) = [] := by
  rw [List.filter_eq_nil_iff]
  intro c hMem
  have hAll :=
    List.sum_eq_zero_iff_forall_eq_nat.mp hZero (c.width u)
      (List.mem_map_of_mem hMem)
  simp [hAll]

/- A cluster put where no column is used makes a narrow row. -/
theorem narrow_concat
    {row : Row}
    (hZero : columns u row = 0)
    (c : Cell) :
    Narrow u width (row ++ [c]) := by
  unfold Narrow
  by_cases hWide : 0 < c.width u
  · refine Or.inr ?_
    rw [List.filter_append, filter_width_eq_nil hZero]
    simp [hWide]
  · refine Or.inl ?_
    rw [columns_append, hZero, columns_cons, columns_nil]
    omega

theorem Narrow.of_begun
    {row row' : Row}
    (hNarrow : Narrow u width row)
    (hPrefix : row' <+: row) :
    Narrow u width row' := by
  rcases hPrefix with ⟨rest, rfl⟩
  rcases hNarrow with hFits | hOne
  · rw [columns_append] at hFits
    exact Or.inl (Nat.le_trans (Nat.le_add_right _ _) hFits)
  · rw [List.filter_append, List.length_append] at hOne
    by_cases hNone :
        (row'.filter (fun c => decide (0 < c.width u))).length = 0
    · refine Or.inl ?_
      have hZero : columns u row' = 0 := by
        rw [columns, List.sum_eq_zero_iff_forall_eq_nat]
        intro n hMem
        rcases List.mem_map.mp hMem with ⟨c, hCell, rfl⟩
        have hNil := List.eq_nil_of_length_eq_zero hNone
        rw [List.filter_eq_nil_iff] at hNil
        simpa using hNil c hCell
      rw [hZero]
      exact Nat.zero_le width
    · exact Or.inr (by omega)

/- Every row narrow, and the columns of the last one counted. -/
structure Wrapping.Measured
    (u : Unicode)
    (width : Nat)
    (w : Wrapping) : Prop where
  used : w.used = columns u w.row
  row : Narrow u width w.row
  rows : ∀ row ∈ w.rows, Narrow u width row

namespace Wrapping.Measured

variable {w : Wrapping}

theorem start :
    Measured u width .start where
  used := rfl
  row := narrow_nil
  rows := by
    intro row hMem
    cases hMem

theorem endRow
    (hMeasured : Measured u width w) :
    Measured u width w.endRow where
  used := rfl
  row := narrow_nil
  rows := by
    intro row hMem
    rcases List.mem_append.mp hMem with hOld | hNew
    · exact hMeasured.rows row hOld
    · rw [List.mem_singleton.mp hNew]
      exact hMeasured.row

theorem push
    (hMeasured : Measured u width w)
    {c : Cell}
    (hNarrow : Narrow u width (w.row ++ [c])) :
    Measured u width (w.push u c) where
  used := by
    show w.used + c.width u = columns u (w.row ++ [c])
    rw [columns_append, columns_cons, columns_nil,
      hMeasured.used]
    rfl
  row := hNarrow
  rows := hMeasured.rows

theorem endRow_push
    (hMeasured : Measured u width w)
    (c : Cell) :
    Measured u width (w.endRow.push u c) :=
  hMeasured.endRow.push (narrow_concat columns_nil c)

theorem narrow_of_fits
    (hMeasured : Measured u width w)
    {c : Cell}
    (hFits : w.used + c.width u ≤ width) :
    Narrow u width (w.row ++ [c]) := by
  refine Or.inl ?_
  rw [columns_append, columns_cons, columns_nil,
    ← hMeasured.used]
  omega

theorem space
    (hMeasured : Measured u width w)
    (c : Cell) :
    Measured u width (Wrapping.space u width w c) := by
  unfold Wrapping.space
  split
  · exact hMeasured.endRow_push c
  · rename_i hFits
    exact
      hMeasured.push
        (hMeasured.narrow_of_fits (Nat.not_lt.mp hFits))

theorem cluster
    (hMeasured : Measured u width w)
    (c : Cell) :
    Measured u width (Wrapping.cluster u width w c) := by
  unfold Wrapping.cluster
  split
  · exact hMeasured.endRow_push c
  · rename_i hFits
    by_cases hOver : w.used + c.width u > width
    · have hZero : columns u w.row = 0 := by
        rw [← hMeasured.used]
        omega
      exact hMeasured.push (narrow_concat hZero c)
    · exact
        hMeasured.push
          (hMeasured.narrow_of_fits (Nat.not_lt.mp hOver))

theorem foldl
    {step : Wrapping → Cell → Wrapping}
    (hStep :
      ∀ w c, Measured u width w → Measured u width (step w c))
    (hMeasured : Measured u width w)
    (cells : List Cell) :
    Measured u width (cells.foldl step w) := by
  induction cells generalizing w with
  | nil => exact hMeasured
  | cons c rest ih => exact ih (hStep w c hMeasured)

theorem word
    (hMeasured : Measured u width w)
    (spaces cells : List Cell) :
    Measured u width (w.word u width spaces cells) := by
  unfold Wrapping.word
  dsimp only
  split
  · rename_i hFits
    have hColumns :
        columns u (w.row ++ spaces ++ cells) =
          w.used + (columns u spaces + columns u cells) := by
      rw [columns_append, columns_append, ← hMeasured.used,
        Nat.add_assoc]
    exact
      { used := hColumns.symm
        row := Or.inl (by
          rw [hColumns]
          unfold columns
          omega)
        rows := hMeasured.rows }
  · apply foldl (fun w c hMeasured => hMeasured.cluster c)
    split
    · exact hMeasured.endRow
    · exact
        foldl (fun w c hMeasured => hMeasured.space c) hMeasured
          spaces

end Wrapping.Measured

theorem measured_wrapFrom
    (trim : Bool)
    (w : Wrapping)
    (cells : List Cell)
    (hMeasured : w.Measured u width) :
    (wrapFrom u width trim w cells).Measured u width := by
  induction w, cells using wrapFrom.induct u width trim with
  | case1 w =>
      rw [wrapFrom, dif_pos rfl]
      exact hMeasured
  | case2 w cells hCells after word hTrim =>
      rw [wrapFrom, dif_neg hCells]
      dsimp only
      rw [if_pos hTrim]
      exact hMeasured
  | case3 w cells hCells spaces after word hTrim ih =>
      rw [wrapFrom, dif_neg hCells]
      dsimp only
      rw [if_neg hTrim]
      exact ih (hMeasured.word _ _)

end Tui
