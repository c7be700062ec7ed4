import AgentWays.Tui.Input

/-
  The entry's cursor rests between clusters, where the texts
  that a deletion brings together share no cluster, and no
  cluster lies across the end of a line that the cursor is
  put at.

  Key definitions include:
    * `Tui.Rests`
    * `Tui.OneCursor`
    * `Tui.meets`

  Main declarations:
    * `Tui.Input.apply_ok`
    * `Tui.restsBetween`
-/

------------------------------------------------------------
-- Slices
------------------------------------------------------------

namespace Tui

variable {u : Unicode} {i : Input}

theorem byteAt_eq
    (s : List Char)
    (n : Nat) :
    byteAt s n = Utf8.size (s.take n) := by
  have hAt := Utf8.charIndicesFrom_getElem? 0 n s
  simpa [byteAt, Utf8.charIndices] using hAt

/- A character's offset is where the text can be cut. -/
theorem splitAt?_byteAt
    (s : List Char)
    (n : Nat) :
    Utf8.splitAt? s (byteAt s n) =
      some (s.take n, s.drop n) := by
  have hSplit := Utf8.splitAt?_size (s.take n) (s.drop n)
  rw [List.take_append_drop] at hSplit
  rw [byteAt_eq, hSplit]

theorem insertAt_byteAt
    (text s : List Char)
    (n : Nat) :
    insertAt text (byteAt text n) s =
      some (text.take n ++ s ++ text.drop n) := by
  simp [insertAt, splitAt?_byteAt]

theorem cut_eq
    {a b : Nat}
    (hLe : a ≤ b) :
    i.cut a b =
      some { i with text := i.text.take a ++ i.text.drop b } := by
  have hTake : (i.text.take b).take a = i.text.take a := by
    rw [List.take_take, Nat.min_eq_left hLe]
  have hSize :
      byteAt i.text a ≤ byteAt i.text b := by
    rw [byteAt_eq, byteAt_eq, ← hTake,
      ← List.take_append_drop a (i.text.take b),
      Utf8.size_append, List.take_append_drop]
    exact Nat.le_add_right _ _
  have hInner :
      Utf8.splitAt? (i.text.take b) (byteAt i.text a) =
        some (i.text.take a, (i.text.take b).drop a) := by
    have hSplit := splitAt?_byteAt (i.text.take b) a
    rw [byteAt_eq, hTake, ← byteAt_eq] at hSplit
    exact hSplit
  simp [Input.cut, removeRange, if_pos hSize,
    splitAt?_byteAt, hInner]

end Tui

------------------------------------------------------------
-- Rest
------------------------------------------------------------

namespace Tui

variable {u : Unicode} {i i' : Input}

/- The cursor is between two clusters of the text. -/
def Rests
    (u : Unicode)
    (i : Input) : Prop :=
  i.cursor ∈ i.bounds u

/- The text before one place and the text from another on. -/
def apartAt
    (u : Unicode)
    (i : Input)
    (a b : Nat) : Bool :=
  !u.graphemes.joins (i.text.take a) (i.text.drop b)

/- Where the cursor's line starts. -/
def lineStart
    (i : Input) : Nat :=
  ((i.text.take i.cursor).rdropWhile (fun c => c ≠ '\n')).length

/- Where the cursor's line ends. -/
def lineEnd
    (i : Input) : Nat :=
  i.cursor +
    ((i.text.drop i.cursor).takeWhile (fun c => c ≠ '\n')).length

/-
  The texts a deletion brings together share no cluster, and
  none lies across the end of the line that is gone to.
-/
def meets
    (u : Unicode)
    (i : Input) : Edit → Bool
| .backspace =>
    match
        (i.bounds u).reverse.find? (fun b => b < i.cursor) with
    | none => true
    | some prev => apartAt u i prev i.cursor
| .delete =>
    match (i.bounds u).find? (fun b => i.cursor < b) with
    | none => true
    | some next => apartAt u i i.cursor next
| .home => apartAt u i (lineStart i) (lineStart i)
| .end => apartAt u i (lineEnd i) (lineEnd i)
| _ => true

/- Nothing is removed, or one cluster, at the cursor. -/
def RemovesOne
    (u : Unicode)
    (i i' : Input) : Prop :=
  i' = i ∨
    ∃ first g second,
      u.graphemes.clusters i.text = first ++ g :: second ∧
        i'.text = (first ++ second).flatten ∧
          i'.cursor = first.flatten.length

theorem rests_snap
    (i : Input)
    (n : Nat) :
    Rests u { i with cursor := i.snap u n } := by
  unfold Rests Input.snap Input.bounds
  by_cases hLe : n ≤ i.text.length
  · rcases Segmentation.find?_from u.graphemes hLe with
      ⟨b, hFind, hMember⟩
    simp only [hFind, Option.getD_some]
    exact hMember
  · have hNone :
        (u.graphemes.bounds i.text).find?
            (fun b => n ≤ b) = none := by
      rw [List.find?_eq_none]
      intro b hMember
      have hBound := Segmentation.le_length_of_mem_bounds hMember
      simp only [decide_eq_true_eq]
      omega
    simp only [hNone, Option.getD_none]
    exact Segmentation.length_mem_bounds u.graphemes i.text

theorem rests_insertStr
    (i : Input)
    (s : List Char) :
    ∃ i', i.insertStr u s = some i' ∧ Rests u i' := by
  unfold Input.insertStr
  rw [insertAt_byteAt]
  exact ⟨_, rfl, rests_snap _ _⟩

theorem rests_insert
    (i : Input)
    (c : Char) :
    ∃ i', i.insert u c = some i' ∧ Rests u i' := by
  unfold Input.insert
  rw [insertAt_byteAt]
  exact ⟨_, rfl, rests_snap _ _⟩

/- Two texts that share no cluster meet at a boundary. -/
theorem rests_of_apartAt
    {a b : Nat}
    (hBound : a ≤ i.text.length)
    (hApart : apartAt u i a b = true) :
    Rests u
      { text := i.text.take a ++ i.text.drop b, cursor := a } := by
  have hLength : (i.text.take a).length = a := by
    rw [List.length_take, Nat.min_eq_left hBound]
  have hJoins :
      u.graphemes.joins (i.text.take a) (i.text.drop b) =
        false := by
    simpa [apartAt] using hApart
  have hMember :=
    Segmentation.mem_bounds_of_joins_eq_false hJoins
  rw [hLength] at hMember
  exact hMember

theorem rests_of_apartAt_self
    {a : Nat}
    (hBound : a ≤ i.text.length)
    (hApart : apartAt u i a a = true) :
    Rests u { i with cursor := a } := by
  have hRests := rests_of_apartAt hBound hApart
  rw [List.take_append_drop] at hRests
  exact hRests

/- Backspace removes the cluster that ends at the cursor. -/
theorem rests_backspace
    (hRests : Rests u i)
    (hMeets : meets u i .backspace = true) :
    ∃ i', i.backspace u = some i' ∧ Rests u i' ∧
      RemovesOne u i i' := by
  rcases Segmentation.mem_bounds_iff.mp hRests with
    ⟨first, second, hSplit, hCursor⟩
  have hFind := Segmentation.find?_previous hSplit
  rw [← hCursor] at hFind
  unfold Input.backspace
  unfold meets at hMeets
  unfold Input.bounds at hMeets ⊢
  rcases List.eq_nil_or_concat first with rfl | ⟨A, g, rfl⟩
  · rw [hFind]
    exact ⟨i, rfl, hRests, Or.inl rfl⟩
  · rw [List.concat_eq_append] at hSplit hCursor hFind
    simp only [List.getLast?_concat, List.dropLast_concat,
      Option.map_some] at hFind
    simp only [hFind] at hMeets ⊢
    have hLe : A.flatten.length ≤ i.cursor := by
      rw [hCursor]
      simp
    have hBound := Segmentation.le_length_of_mem_bounds hRests
    rw [cut_eq hLe]
    refine
      ⟨_, rfl, rests_of_apartAt (hLe.trans hBound) hMeets, ?_⟩
    refine Or.inr ⟨A, g, second, by simp [hSplit], ?_, rfl⟩
    have hAfter := (Segmentation.take_drop_of_split hSplit).2
    rw [List.append_assoc] at hSplit
    have hBefore := (Segmentation.take_drop_of_split hSplit).1
    rw [List.flatten_append, hAfter, ← hCursor]
    simp only
    rw [← hBefore]

/- Delete removes the cluster that starts at the cursor. -/
theorem rests_delete
    (hRests : Rests u i)
    (hMeets : meets u i .delete = true) :
    ∃ i', i.delete u = some i' ∧ Rests u i' ∧
      RemovesOne u i i' := by
  rcases Segmentation.mem_bounds_iff.mp hRests with
    ⟨first, second, hSplit, hCursor⟩
  have hFind := Segmentation.find?_next hSplit
  rw [← hCursor] at hFind
  unfold Input.delete
  unfold meets at hMeets
  unfold Input.bounds at hMeets ⊢
  cases second with
  | nil =>
      rw [hFind]
      exact ⟨i, rfl, hRests, Or.inl rfl⟩
  | cons g rest =>
      simp only [List.head?_cons, Option.map_some] at hFind
      simp only [hFind] at hMeets ⊢
      have hBound := Segmentation.le_length_of_mem_bounds hRests
      rw [cut_eq (Nat.le_add_right _ _)]
      refine ⟨_, rfl, rests_of_apartAt hBound hMeets, ?_⟩
      refine Or.inr ⟨first, g, rest, hSplit, ?_, hCursor⟩
      have hBefore := (Segmentation.take_drop_of_split hSplit).1
      have hLater :
          u.graphemes.clusters i.text =
            (first ++ [g]) ++ rest := by
        simp [hSplit]
      have hAfter := (Segmentation.take_drop_of_split hLater).2
      have hLength :
          (first ++ [g]).flatten.length =
            i.cursor + g.length := by
        simp [hCursor]
      rw [List.flatten_append, hAfter, hLength, hBefore,
        ← hCursor]

theorem rests_left
    (i : Input) :
    Rests u (i.left u) := by
  unfold Input.left Rests
  cases hFind :
      (i.bounds u).reverse.find? (fun b => b < i.cursor) with
  | none => exact Segmentation.zero_mem_bounds _ _
  | some prev =>
      exact
        List.mem_reverse.mp (List.mem_of_find?_eq_some hFind)

theorem rests_right
    (hRests : Rests u i) :
    Rests u (i.right u) := by
  unfold Input.right Rests
  cases hFind :
      (i.bounds u).find? (fun b => i.cursor < b) with
  | none => exact hRests
  | some next => exact List.mem_of_find?_eq_some hFind

end Tui

------------------------------------------------------------
-- Lines And Clicks
------------------------------------------------------------

namespace Tui

variable {u : Unicode} {i i' : Input}

theorem rdropWhile_newline
    {before after : List Char}
    (hNot : '\n' ∉ after) :
    (before ++ '\n' :: after).rdropWhile (fun c => c ≠ '\n') =
      before ++ ['\n'] := by
  have hAfter :
      ∀ c ∈ after.reverse, decide (c ≠ '\n') = true := by
    intro c hMember
    refine decide_eq_true ?_
    rintro rfl
    exact hNot (List.mem_reverse.mp hMember)
  rw [List.rdropWhile, List.reverse_append,
    List.reverse_cons, List.append_assoc,
    List.dropWhile_append_of_pos hAfter]
  simp

theorem rdropWhile_no_newline
    {s : List Char}
    (hNot : '\n' ∉ s) :
    s.rdropWhile (fun c => c ≠ '\n') = [] := by
  rw [List.rdropWhile_eq_nil_iff]
  intro c hMember
  refine decide_eq_true ?_
  rintro rfl
  exact hNot hMember

/- Home goes to the start of the cursor's line. -/
theorem home_eq
    (i : Input) :
    i.home = some { i with cursor := lineStart i } := by
  unfold Input.home lineStart
  rw [splitAt?_byteAt]
  simp only [Option.bind_some]
  cases hFind : Utf8.rfind? '\n' (i.text.take i.cursor) with
  | none =>
      rw [rdropWhile_no_newline (Utf8.rfind?_eq_none hFind)]
      rfl
  | some n =>
      rcases Utf8.rfind?_eq_some hFind with
        ⟨before, after, hText, hNot, rfl⟩
      have hSize :
          Utf8.size before + 1 =
            Utf8.size (before ++ ['\n']) := by
        rw [Utf8.size_append]
        rfl
      have hSplit :=
        Utf8.splitAt?_size (before ++ ['\n']) after
      rw [List.append_assoc, List.singleton_append,
        ← hText, ← hSize] at hSplit
      simp only
      rw [hSplit, hText, rdropWhile_newline hNot]
      rfl

theorem takeWhile_newline
    {before after : List Char}
    (hNot : '\n' ∉ before) :
    (before ++ '\n' :: after).takeWhile (fun c => c ≠ '\n') =
      before := by
  have hBefore :
      ∀ c ∈ before, decide (c ≠ '\n') = true := by
    intro c hMember
    refine decide_eq_true ?_
    rintro rfl
    exact hNot hMember
  rw [List.takeWhile_append_of_pos hBefore]
  simp

/- End goes to the end of the cursor's line. -/
theorem end_eq
    (i : Input) :
    i.end = some { i with cursor := lineEnd i } := by
  unfold Input.end lineEnd
  rw [splitAt?_byteAt]
  simp only [Option.bind_some]
  cases hFind : Utf8.find? '\n' (i.text.drop i.cursor) with
  | none =>
      have hNot := Utf8.find?_eq_none hFind
      have hAll :
          (i.text.drop i.cursor).takeWhile
              (fun c => c ≠ '\n') =
            i.text.drop i.cursor := by
        rw [List.takeWhile_eq_self_iff]
        intro c hMember
        refine decide_eq_true ?_
        rintro rfl
        exact hNot hMember
      rw [hAll]
  | some n =>
      rcases Utf8.find?_eq_some hFind with
        ⟨before, after, hText, hNot, rfl⟩
      have hSplit := Utf8.splitAt?_size before ('\n' :: after)
      rw [← hText] at hSplit
      simp only
      rw [hSplit, hText, takeWhile_newline hNot]
      rfl

theorem lineStart_le
    (i : Input) :
    lineStart i ≤ i.text.length := by
  have hLe :=
    (List.rdropWhile_prefix (fun c => decide (c ≠ '\n'))
      (l := i.text.take i.cursor)).length_le
  rw [List.length_take] at hLe
  unfold lineStart
  omega

theorem lineEnd_le
    (hBound : i.cursor ≤ i.text.length) :
    lineEnd i ≤ i.text.length := by
  have hLe :=
    (List.takeWhile_prefix (fun c => decide (c ≠ '\n'))
      (l := i.text.drop i.cursor)).length_le
  rw [List.length_drop] at hLe
  unfold lineEnd
  omega

/- The search ends at one of the places it was given. -/
theorem search_some
    {bounds : List Nat}
    (drawn : Nat → Nat × Nat)
    (place : Nat × Nat)
    {lo hi : Nat}
    (hLe : lo ≤ hi)
    (hHi : hi < bounds.length) :
    ∃ found, search bounds drawn place lo hi = some found ∧
      found < bounds.length := by
  induction lo, hi using
      search.induct bounds drawn place with
  | case1 lo hi hLt mid hNone =>
      have hMid : mid < bounds.length := by omega
      rw [List.getElem?_eq_getElem hMid] at hNone
      cases hNone
  | case2 lo hi hLt mid b hAt hDrawn ih =>
      rw [search, if_pos hLt]
      simp only [mid] at hAt
      simp only [hAt, hDrawn, if_true]
      exact ih (by omega) hHi
  | case3 lo hi hLt mid b hAt hDrawn ih =>
      rw [search, if_pos hLt]
      simp only [mid] at hAt
      simp only [hAt, if_neg hDrawn]
      exact ih (by omega) (by omega)
  | case4 lo hi hDone =>
      rw [search, if_neg hDone]
      exact ⟨lo, rfl, by omega⟩

theorem rests_click
    (i : Input)
    (width row col : Nat) :
    ∃ i', i.click u width row col = some i' ∧
      Rests u i' := by
  have hFirst : (i.bounds u)[0]? = some 0 := rfl
  unfold Input.click
  simp only [hFirst]
  split
  · exact ⟨_, rfl, Segmentation.zero_mem_bounds _ _⟩
  · have hLength : 0 < (i.bounds u).length := by
      simp [Input.bounds, Segmentation.bounds]
    rcases
      search_some
        (fun b => Input.drawnAt u { i with cursor := b } width)
        (row, col) (Nat.zero_le _)
        (Nat.sub_lt hLength Nat.one_pos) with
      ⟨found, hSearch, hFound⟩
    rw [hSearch, Option.bind_some,
      List.getElem?_eq_getElem hFound, Option.map_some]
    exact ⟨_, rfl, List.getElem_mem hFound⟩

theorem rests_up
    (i : Input)
    (width : Nat) :
    ∃ r, i.up u width = some r ∧ Rests u r.1 := by
  unfold Input.up
  simp only
  split
  · exact ⟨_, rfl, Segmentation.zero_mem_bounds _ _⟩
  · rcases
      rests_click (u := u) i (max width 1)
        ((i.drawnAt u (max width 1)).1 - 1)
        (i.drawnAt u (max width 1)).2 with
      ⟨i', hClick, hRests⟩
    rw [hClick]
    exact ⟨_, rfl, hRests⟩

theorem rests_down
    (i : Input)
    (width : Nat) :
    ∃ r, i.down u width = some r ∧ Rests u r.1 := by
  unfold Input.down
  simp only
  split
  · exact ⟨_, rfl, Segmentation.length_mem_bounds _ _⟩
  · rcases
      rests_click (u := u) i (max width 1)
        ((i.drawnAt u (max width 1)).1 + 1)
        (i.drawnAt u (max width 1)).2 with
      ⟨i', hClick, hRests⟩
    rw [hClick]
    exact ⟨_, rfl, hRests⟩

end Tui

------------------------------------------------------------
-- One Cursor
------------------------------------------------------------

namespace Tui

variable {u : Unicode} {i : Input} {style : Style}

/- The rows have one reversed span, in any style that is not. -/
def OneCursor
    (u : Unicode)
    (i : Input) : Prop :=
  ∀ width style, style.isReversed = false →
    ((i.rows u width style).flatMap Line.spans).countP
      Span.isReversed = 1

theorem isReversed_withModifier
    (style : Style) :
    (style.withModifier Style.reversed).isReversed = true := by
  refine decide_eq_true ?_
  apply UInt16.eq_of_toBitVec_eq
  apply BitVec.eq_of_getLsbD_eq
  intro k hK
  simp only [Style.withModifier, UInt16.toBitVec_and,
    UInt16.toBitVec_or, BitVec.getLsbD_and,
    BitVec.getLsbD_or]
  cases Style.reversed.toBitVec.getLsbD k <;> simp

/- A cell is sticky where it is the cursor's, in reverse. -/
def DrawnIn
    (style : Style)
    (c : Cell) : Prop :=
  c.style =
    if c.sticky then style.withModifier Style.reversed
    else style

theorem DrawnIn.isReversed_eq
    {c : Cell}
    (hDrawn : DrawnIn style c)
    (hStyle : style.isReversed = false) :
    c.isReversed = c.sticky := by
  unfold Cell.isReversed
  rw [hDrawn]
  cases c.sticky with
  | true => exact isReversed_withModifier style
  | false => exact hStyle

namespace Drawing

/- The cells of a drawing, in order. -/
def cells
    (d : Drawing) : List Cell :=
  d.done.flatten ++ d.last

/- A cluster is drawn as a cell, one for the cursor's. -/
theorem cells_cluster
    (style : Style)
    (cursor : Nat)
    (d : Drawing)
    (g : List Char) :
    ∃ more,
      (d.cluster cursor style g).cells = d.cells ++ more ∧
        (∀ c ∈ more, DrawnIn style c) ∧
          more.countP Cell.sticky =
            if d.place = cursor then 1 else 0 := by
  unfold Drawing.cluster
  by_cases hHere : d.place = cursor
  · by_cases hNewline : isNewline g
    · refine
        ⟨[cursorCell (style.withModifier Style.reversed)],
          ?_, ?_, ?_⟩
      · simp [hHere, hNewline, cells, newline, push]
      · simp [DrawnIn, cursorCell]
      · simp [hHere, cursorCell]
    · refine
        ⟨[⟨g, style.withModifier Style.reversed, true⟩],
          ?_, ?_, ?_⟩
      · simp [hHere, hNewline, cells, push]
      · simp [DrawnIn]
      · simp [hHere]
  · by_cases hNewline : isNewline g
    · refine ⟨[], ?_, by simp, by simp [hHere]⟩
      simp [hHere, hNewline, cells, newline]
    · refine ⟨[⟨g, style, false⟩], ?_, ?_, ?_⟩
      · simp [hHere, hNewline, cells, push]
      · simp [DrawnIn]
      · simp [hHere]

theorem place_cluster
    (style : Style)
    (cursor : Nat)
    (d : Drawing)
    (g : List Char) :
    (d.cluster cursor style g).place =
      d.place + g.length := by
  unfold Drawing.cluster
  simp only
  split
  · split <;> rfl
  · rfl

/- Clusters the cursor is not at the start of. -/
theorem cells_foldl
    {cursor : Nat}
    (d : Drawing)
    (gs : List (List Char))
    (hDrawn : ∀ c ∈ d.cells, DrawnIn style c)
    (hNonempty : [] ∉ gs)
    (hApart :
      d.place + gs.flatten.length ≤ cursor ∨
        cursor < d.place) :
    let d' := gs.foldl (Drawing.cluster cursor style) d
    (∀ c ∈ d'.cells, DrawnIn style c) ∧
      d'.cells.countP Cell.sticky =
        d.cells.countP Cell.sticky ∧
      d'.place = d.place + gs.flatten.length := by
  induction gs generalizing d with
  | nil => exact ⟨hDrawn, rfl, rfl⟩
  | cons g rest ih =>
      have hG : 0 < g.length := by
        refine List.length_pos_of_ne_nil ?_
        rintro rfl
        exact hNonempty List.mem_cons_self
      rw [List.flatten_cons, List.length_append] at hApart ⊢
      rcases cells_cluster style cursor d g with
        ⟨more, hCells, hMore, hCount⟩
      have hPlace := place_cluster style cursor d g
      have hAway : d.place ≠ cursor := by omega
      rw [if_neg hAway] at hCount
      have hLater :=
        ih (d.cluster cursor style g)
          (by
            rw [hCells]
            intro c hMember
            rcases List.mem_append.mp hMember with hOld | hNew
            · exact hDrawn c hOld
            · exact hMore c hNew)
          (fun hMember =>
            hNonempty (List.mem_cons_of_mem g hMember))
          (by omega)
      refine ⟨hLater.1, ?_, ?_⟩
      · rw [List.foldl_cons, hLater.2.1, hCells,
          List.countP_append, hCount]
        rfl
      · rw [List.foldl_cons, hLater.2.2, hPlace,
          Nat.add_assoc]

end Drawing

/- A drawing holds one cell for a cursor that rests. -/
theorem draw_cells
    (style : Style)
    (hRests : Rests u i) :
    (∀ c ∈ (i.draw u style).cells, DrawnIn style c) ∧
      (i.draw u style).cells.countP Cell.sticky = 1 := by
  rcases Segmentation.mem_bounds_iff.mp hRests with
    ⟨first, second, hSplit, hCursor⟩
  have hNonempty := u.graphemes.nonempty i.text
  rw [hSplit] at hNonempty
  have hStart :
      ∀ c ∈ Drawing.start.cells, DrawnIn style c := by
    intro c hMember
    cases hMember
  have hApart :
      Drawing.start.place + first.flatten.length ≤ i.cursor ∨
        i.cursor < Drawing.start.place := by
    refine Or.inl ?_
    rw [hCursor, Drawing.start, Nat.zero_add]
  have hFirst :=
    Drawing.cells_foldl .start first hStart
      (fun hMember =>
        hNonempty (List.mem_append_left second hMember))
      hApart
  unfold Input.draw
  rw [hSplit, List.foldl_append]
  simp only at hFirst ⊢
  generalize
    first.foldl (Drawing.cluster i.cursor style) .start = d
    at hFirst ⊢
  rcases hFirst with ⟨hDrawn, hNone, hPlace⟩
  have hPlace : d.place = i.cursor := by
    rw [hPlace, hCursor]
    simp [Drawing.start]
  have hNone : d.cells.countP Cell.sticky = 0 := hNone
  cases second with
  | nil =>
      -- the cursor is past the last cluster
      rw [List.foldl_nil, if_pos (Nat.le_of_eq hPlace)]
      have hCells :
          (d.push
              (cursorCell
                (style.withModifier Style.reversed))).cells =
            d.cells ++
              [cursorCell
                (style.withModifier Style.reversed)] := by
        simp [Drawing.cells, Drawing.push]
      rw [hCells]
      constructor
      · intro c hMember
        rcases List.mem_append.mp hMember with hOld | hNew
        · exact hDrawn c hOld
        · rw [List.mem_singleton.mp hNew]
          rfl
      · rw [List.countP_append, hNone]
        rfl
  | cons g rest =>
      rcases
        Drawing.cells_cluster style i.cursor d g with
        ⟨more, hCells, hMore, hCount⟩
      have hNext :=
        Drawing.place_cluster style i.cursor d g
      have hG : 0 < g.length := by
        refine List.length_pos_of_ne_nil ?_
        rintro rfl
        exact hNonempty (by simp)
      rw [if_pos hPlace] at hCount
      have hPast :
          i.cursor < (d.cluster i.cursor style g).place := by
        omega
      have hLater :=
        Drawing.cells_foldl
          (d.cluster i.cursor style g) rest
          (by
            rw [hCells]
            intro c hMember
            rcases List.mem_append.mp hMember with hOld | hNew
            · exact hDrawn c hOld
            · exact hMore c hNew)
          (fun hMember => hNonempty (by simp [hMember]))
          (Or.inr hPast)
      simp only at hLater
      rw [List.foldl_cons, if_neg (by omega)]
      refine ⟨hLater.1, ?_⟩
      rw [hLater.2.1, hCells, List.countP_append, hNone,
        hCount]

end Tui

namespace Tui

variable {u : Unicode} {i : Input} {style : Style}

/- Rows with one reversed cell have one reversed span. -/
theorem countP_spans
    {rows : List Row}
    (hOne : rows.flatten.countP Cell.isReversed ≤ 1) :
    ((rows.map (fun row => lineOf row .new)).flatMap
        Line.spans).countP Span.isReversed =
      rows.flatten.countP Cell.isReversed := by
  induction rows with
  | nil => rfl
  | cons row rest ih =>
      rw [List.flatten_cons, List.countP_append] at hOne ⊢
      rw [List.map_cons, List.flatMap_cons,
        List.countP_append, countP_lineOf (by omega),
        ih (by omega)]

/- The lines wrapped keep their cells but for some breaks. -/
theorem filter_flatMap_wrapCells
    (lines : List Row)
    (width : Nat) :
    (lines.flatMap
        (fun cells => wrapCells u cells width false)).flatten.filter
        (fun c => !c.isBreak) =
      lines.flatten.filter (fun c => !c.isBreak) := by
  induction lines with
  | nil => rfl
  | cons cells rest ih =>
      rw [List.flatMap_cons, List.flatten_append,
        List.filter_append, filter_wrapCells, ih,
        List.flatten_cons, List.filter_append]

theorem mem_of_mem_flatMap_wrapCells
    {lines : List Row}
    {width : Nat}
    {c : Cell}
    (hMember :
      c ∈ (lines.flatMap
        (fun cells => wrapCells u cells width false)).flatten) :
    c ∈ lines.flatten := by
  rcases List.mem_flatten.mp hMember with ⟨row, hRow, hC⟩
  rcases List.mem_flatMap.mp hRow with ⟨cells, hCells, hWrap⟩
  exact
    List.mem_flatten.mpr
      ⟨cells, hCells,
        mem_of_mem_wrapCells
          (List.mem_flatten.mpr ⟨row, hWrap, hC⟩)⟩

/- A break is never sticky. -/
theorem countP_sticky_filter
    (cells : List Cell) :
    (cells.filter (fun c => !c.isBreak)).countP Cell.sticky =
      cells.countP Cell.sticky := by
  rw [List.countP_filter]
  apply List.countP_congr
  intro c _
  cases hSticky : c.sticky <;>
    simp [Cell.isBreak, hSticky]

/- A cursor that rests is drawn once. -/
theorem oneCursor_of_rests
    (hRests : Rests u i) :
    OneCursor u i := by
  intro width style hStyle
  rcases draw_cells style hRests with ⟨hDrawn, hOne⟩
  unfold Input.rows
  simp only
  generalize hLines :
    (i.draw u style).done ++ [(i.draw u style).last] = lines
  have hCells : lines.flatten = (i.draw u style).cells := by
    rw [← hLines]
    simp [Drawing.cells]
  rw [← hCells] at hDrawn hOne
  -- the reversed cells are the sticky ones, and no break
  have hCount :
      (lines.flatMap
          (fun cells =>
            wrapCells u cells width false)).flatten.countP
          Cell.isReversed = 1 := by
    calc
      _ = (lines.flatMap
            (fun cells =>
              wrapCells u cells width false)).flatten.countP
            Cell.sticky := by
          apply List.countP_congr
          intro c hMember
          rw [(hDrawn c
            (mem_of_mem_flatMap_wrapCells hMember)).isReversed_eq
              hStyle]
      _ = lines.flatten.countP Cell.sticky := by
          rw [← countP_sticky_filter, filter_flatMap_wrapCells,
            countP_sticky_filter]
      _ = 1 := hOne
  rw [countP_spans (Nat.le_of_eq hCount), hCount]

end Tui

------------------------------------------------------------
-- Every Run
------------------------------------------------------------

namespace Tui

variable {u : Unicode} {i : Input}

/- An edit that meets leaves the cursor at rest. -/
theorem Input.apply_ok
    {edit : Edit}
    (hRests : Rests u i)
    (hMeets : meets u i edit = true) :
    ∃ i', i.apply u edit = some i' ∧ Rests u i' ∧
      (edit = .backspace ∨ edit = .delete →
        RemovesOne u i i') := by
  have hBound := Segmentation.le_length_of_mem_bounds hRests
  cases edit with
  | set text cursor =>
      exact ⟨_, rfl, rests_snap _ _, nofun⟩
  | insert c =>
      rcases rests_insert (u := u) i c with
        ⟨i', hApply, hAfter⟩
      exact ⟨i', hApply, hAfter, nofun⟩
  | insertStr s =>
      rcases rests_insertStr (u := u) i s with
        ⟨i', hApply, hAfter⟩
      exact ⟨i', hApply, hAfter, nofun⟩
  | newline =>
      rcases rests_insert (u := u) i '\n' with
        ⟨i', hApply, hAfter⟩
      exact ⟨i', hApply, hAfter, nofun⟩
  | backspace =>
      rcases rests_backspace hRests hMeets with
        ⟨i', hApply, hAfter, hOne⟩
      exact ⟨i', hApply, hAfter, fun _ => hOne⟩
  | delete =>
      rcases rests_delete hRests hMeets with
        ⟨i', hApply, hAfter, hOne⟩
      exact ⟨i', hApply, hAfter, fun _ => hOne⟩
  | left => exact ⟨_, rfl, rests_left i, nofun⟩
  | right => exact ⟨_, rfl, rests_right hRests, nofun⟩
  | home =>
      exact
        ⟨_, home_eq i,
          rests_of_apartAt_self (lineStart_le i) hMeets,
          nofun⟩
  | «end» =>
      exact
        ⟨_, end_eq i,
          rests_of_apartAt_self (lineEnd_le hBound) hMeets,
          nofun⟩
  | up width =>
      rcases rests_up (u := u) i width with
        ⟨r, hApply, hAfter⟩
      exact
        ⟨r.1, by rw [Input.apply, hApply]; rfl, hAfter, nofun⟩
  | down width =>
      rcases rests_down (u := u) i width with
        ⟨r, hApply, hAfter⟩
      exact
        ⟨r.1, by rw [Input.apply, hApply]; rfl, hAfter, nofun⟩
  | click width row col =>
      rcases rests_click (u := u) i width row col with
        ⟨i', hApply, hAfter⟩
      exact ⟨i', hApply, hAfter, nofun⟩

/- What the entry promises of an edit. -/
def Kept
    (u : Unicode)
    (t : StepMachine.Turn (Option Input) Edit Unit) : Prop :=
  ∃ i i',
    t.before = some i ∧ t.after = some i' ∧
      i'.cursor ≤ i'.text.length ∧ Rests u i' ∧
        OneCursor u i' ∧
          (t.input = .backspace ∨ t.input = .delete →
            RemovesOne u i i')

/-
  From the empty entry no edit fails, the cursor rests and
  is drawn once, and a deletion removes one cluster, in
  every run whose edits all meet.
-/
theorem restsBetween
    {edits : List Edit}
    (hMeets :
      ∀ t ∈ (entry u).trace (some .empty) edits,
        t.before.all (fun i => meets u i t.input) = true) :
    ∀ t ∈ (entry u).trace (some .empty) edits, Kept u t := by
  intro t hMember
  have hInv :=
    StepMachine.invariant_of_mem_trace
      (fun s => ∃ i, s = some i ∧ Rests u i)
      (fun s edit => s.all (fun i => meets u i edit) = true)
      (by
        rintro s edit ⟨i, rfl, hRests⟩ hOk
        rcases Input.apply_ok hRests hOk with
          ⟨i', hApply, hAfter, -⟩
        exact ⟨i', hApply, hAfter⟩)
      hMeets ⟨.empty, rfl, Segmentation.zero_mem_bounds _ _⟩
      hMember
  rcases hInv.1 with ⟨i, hBefore, hRests⟩
  have hOk := hMeets t hMember
  rw [hBefore] at hOk
  rcases Input.apply_ok hRests hOk with
    ⟨i', hApply, hAfter, hOne⟩
  have hTurn := StepMachine.eq_turn_of_mem_trace hMember
  have hReached : t.after = some i' := by
    rw [hTurn, hBefore]
    exact hApply
  exact
    ⟨i, i', hBefore, hReached,
      Segmentation.le_length_of_mem_bounds hAfter, hAfter,
      oneCursor_of_rests hAfter, hOne⟩

/- Each character, but a carriage return with its line feed. -/
def crlfClusters : List Char → List (List Char)
| '\r' :: '\n' :: rest => ['\r', '\n'] :: crlfClusters rest
| c :: rest => [c] :: crlfClusters rest
| [] => []

theorem flatten_crlfClusters
    (s : List Char) :
    (crlfClusters s).flatten = s := by
  induction s using crlfClusters.induct with
  | case1 rest ih => simp [crlfClusters, ih]
  | case2 c rest hNot ih => simp [crlfClusters, ih]
  | case3 => rfl

theorem nil_not_mem_crlfClusters
    (s : List Char) :
    [] ∉ crlfClusters s := by
  induction s using crlfClusters.induct with
  | case1 rest ih => simp [crlfClusters, ih]
  | case2 c rest hNot ih => simp [crlfClusters, ih]
  | case3 => simp [crlfClusters]

def crlf : Unicode where
  graphemes :=
    { clusters := crlfClusters
      flatten_clusters := flatten_crlfClusters
      nonempty := nil_not_mem_crlfClusters }
  strWidth := List.length

/- A line pasted and typed, and then edited. -/
def typed : List Edit :=
  [.insertStr ['a', 'b', '\r', '\n', 'c'], .home, .backspace,
    .insert 'd', .newline, .left, .delete, .up 4, .end]

theorem restsBetween_typed :
    ((entry crlf).trace (some .empty) typed).length = 9 ∧
      ∀ t ∈ (entry crlf).trace (some .empty) typed,
        Kept crlf t :=
  ⟨rfl, restsBetween (by decide +kernel)⟩

/- A text of two lines, and End on the first of them. -/
theorem not_restsBetween_end :
    ¬ ∀ (u : Unicode) (edits : List Edit),
        ∀ t ∈ (entry u).trace (some .empty) edits,
          Kept u t := by
  intro hClaim
  have hBetween :
      ∃ t ∈ (entry crlf).trace (some .empty)
          [.set ['a', '\r', '\n', 'b'] 0, .end],
        t.after =
          some { text := ['a', '\r', '\n', 'b'], cursor := 2 } := by
    decide
  rcases hBetween with ⟨t, hMember, hAfter⟩
  rcases hClaim crlf _ t hMember with
    ⟨i, i', -, hReached, -, hRests, -, -⟩
  rw [hAfter] at hReached
  cases hReached
  exact absurd hRests (by unfold Rests; decide)

end Tui
