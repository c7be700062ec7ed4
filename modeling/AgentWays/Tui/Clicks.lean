import AgentWays.Tui.Drawn

/-
  Where a click leaves the cursor: on the last boundary that
  is drawn no later than the place clicked.

  The search for it needs the places to grow with the
  boundaries. They do where no beginning of a row measures
  fewer columns once its next cluster is added, which a
  ligature of two clusters can bring about.

  Key definitions include:
    * `Tui.Widens`
    * `Tui.ClicksWell`

  Main declarations:
    * `Tui.notAfter_cursorPlace`
    * `Tui.notAfter_cursorPlace_iff`
    * `Tui.search_last`
    * `Tui.clicksWell_iff`
-/

------------------------------------------------------------
-- Beginnings Of Rows
------------------------------------------------------------

namespace Tui

/- The cells of a row before one of its kept cells. -/
def cellsBefore : Nat → Row → Row
| _, [] => []
| n, c :: rest =>
    if c.isBreak then c :: cellsBefore n rest
    else if n = 0 then []
    else c :: cellsBefore (n - 1) rest

/- The cells before a kept cell, on the row that has it. -/
def runTo : Nat → List Row → Row
| _, [] => []
| n, row :: rest =>
    if n < (kept row).length then cellsBefore n row
    else runTo (n - (kept row).length) rest

theorem cellsBefore_append
    {c : Cell}
    (hC : c.isBreak = false)
    (run more : Row) :
    cellsBefore (kept run).length (run ++ c :: more) = run := by
  induction run with
  | nil =>
      show cellsBefore 0 (c :: more) = []
      rw [cellsBefore, if_neg (by simp [hC]), if_pos rfl]
  | cons x rest ih =>
      rw [List.cons_append]
      by_cases hBreak : x.isBreak = true
      · have hKept : kept (x :: rest) = kept rest := by
          simp [kept, hBreak]
        rw [hKept, cellsBefore, if_pos hBreak, ih]
      · have hKept : kept (x :: rest) = x :: kept rest := by
          simp [kept, hBreak]
        rw [hKept, List.length_cons, cellsBefore,
          if_neg hBreak, if_neg (Nat.succ_ne_zero _),
          Nat.add_sub_cancel, ih]

theorem runTo_append
    {c : Cell}
    (hC : c.isBreak = false)
    (earlier : List Row)
    (run more : Row)
    (later : List Row) :
    runTo (kept (earlier.flatten ++ run)).length
        (earlier ++ (run ++ c :: more) :: later) = run := by
  induction earlier with
  | nil =>
      have hLt :
          (kept ([] ++ run)).length <
            (kept (run ++ c :: more)).length := by
        have hKept : kept (c :: more) = c :: kept more := by
          simp [kept, hC]
        rw [kept_append run, hKept]
        simp
      rw [List.nil_append, List.flatten_nil, runTo, if_pos hLt]
      exact cellsBefore_append hC run more
  | cons row rest ih =>
      rw [List.flatten_cons, List.append_assoc, kept_append,
        List.length_append, List.cons_append, runTo,
        if_neg (by omega), Nat.add_sub_cancel_left, ih]

/- The row a cluster is on, up to it, with no cursor drawn. -/
def rowBegun
    (u : Unicode)
    (width : Nat)
    (first : List (List Char))
    (g : List Char)
    (second : List (List Char)) : Row :=
  runTo (kept ((lineBegun first).map plainCell)).length
    (wrapCells u
      ((lineBegun first ++ g :: lineRest second).map plainCell)
      width false)

/- The columns of the place after a cluster. -/
def nextWidth
    (u : Unicode)
    (second : List (List Char)) : Nat :=
  (lineRest second).head?.elim 1 u.strWidth

/-
  No beginning of a row measures fewer columns once its next
  cluster is added, where the place after it is on the row.
-/
def Widens
    (u : Unicode)
    (text : List Char)
    (width : Nat) : Prop :=
  ∀ first g second,
    u.graphemes.clusters text = first ++ g :: second →
      isNewline g = false → g ≠ [' '] →
      columns u (rowBegun u width first g second) +
          u.strWidth g + nextWidth u second ≤ width →
        u.strWidth (textOf (rowBegun u width first g second)) ≤
          u.strWidth
            (textOf (rowBegun u width first g second) ++ g)

end Tui

------------------------------------------------------------
-- From A Boundary To The Next
------------------------------------------------------------

namespace Tui

variable {u : Unicode} {width : Nat}
variable {g : List Char}

theorem notAfter_iff
    {p q : Nat × Nat} :
    notAfter p q = true ↔
      p.1 < q.1 ∨ p.1 = q.1 ∧ p.2 ≤ q.2 := by
  unfold notAfter
  exact decide_eq_true_iff

theorem notAfter_refl
    (p : Nat × Nat) :
    notAfter p p = true :=
  notAfter_iff.mpr (Or.inr ⟨rfl, Nat.le_refl _⟩)

theorem notAfter_trans
    {p q r : Nat × Nat}
    (hPQ : notAfter p q = true)
    (hQR : notAfter q r = true) :
    notAfter p r = true := by
  rw [notAfter_iff] at *
  omega

theorem isBreak_plainCell :
    (plainCell g).isBreak = true ↔ g = [' '] := by
  unfold plainCell Cell.isBreak
  exact decide_eq_true_iff

theorem isLetter_plainCell :
    (plainCell g).isLetter = true ↔ g ≠ [' '] :=
  Cell.isLetter_iff

theorem lineBegun_newline
    (first : List (List Char))
    (hNewline : isNewline g = true) :
    lineBegun (first ++ [g]) = [] := by
  unfold lineBegun
  rw [List.rtakeWhile_concat, if_neg (by simp [hNewline])]

theorem lineBegun_concat
    (first : List (List Char))
    (hNewline : isNewline g = false) :
    lineBegun (first ++ [g]) = lineBegun first ++ [g] := by
  unfold lineBegun
  rw [List.rtakeWhile_concat, if_pos (by simp [hNewline])]

theorem lineRest_newline
    (second : List (List Char))
    (hNewline : isNewline g = true) :
    lineRest (g :: second) = [] := by
  unfold lineRest
  rw [List.takeWhile_cons_of_neg (by simp [hNewline])]

theorem lineRest_cons
    (second : List (List Char))
    (hNewline : isNewline g = false) :
    lineRest (g :: second) = g :: lineRest second := by
  unfold lineRest
  rw [List.takeWhile_cons_of_pos (by simp [hNewline])]

/- The end of a line is drawn no later than the next line. -/
theorem notAfter_newline
    (hSpaced : u.Spaced)
    (hWidth : 1 ≤ width)
    (first second : List (List Char))
    (hNewline : isNewline g = true) :
    notAfter (cursorPlace u width first (g :: second))
      (cursorPlace u width (first ++ [g]) second) = true := by
  have hNext :
      lineSpot u width (first ++ [g]) second = .start := by
    unfold lineSpot
    rw [lineBegun_newline first hNewline]
    exact Reading.cursorSpot_start _
  have hRows :
      (rowsOf u width
          ((first ++ [g]).foldl Drawing.passed .start).done).length =
        (rowsOf u width
            (first.foldl Drawing.passed .start).done).length +
          ((((lineBegun first).map plainCell).foldl
            (Reading.step u width) .start).finish
              u width).rows.length + 1 := by
    rw [List.foldl_append, List.foldl_cons, List.foldl_nil,
      Drawing.passed_of_newline _ hNewline,
      Drawing.last_foldl_passed]
    simp [rowsOf, wrapCells, Nat.max_eq_left hWidth,
      wrapFrom_start, Nat.add_assoc]
  have hEnd :=
    @Reading.cursorSpot_nil u width cursorStyle
      (((lineBegun first).map plainCell).foldl
        (Reading.step u width) .start) hSpaced.one
  have hHere :
      lineSpot u width first (g :: second) =
        (((lineBegun first).map plainCell).foldl
          (Reading.step u width) .start).cursorSpot u width
            cursorStyle [] := by
    unfold lineSpot
    rw [lineRest_newline second hNewline]
    rfl
  rw [← hHere] at hEnd
  rw [notAfter_iff]
  unfold cursorPlace
  dsimp only
  rw [hNext, hRows]
  have hZero : u.strWidth (textOf []) = 0 := hSpaced.empty
  rcases hEnd with hOn | ⟨hBelow, hRow⟩
  · refine Or.inl ?_
    simp [Wrapping.start]
    omega
  · refine Or.inr ⟨?_, ?_⟩
    · simp [Wrapping.start]
      omega
    · rw [hRow, hZero]
      exact Nat.zero_le _

end Tui

namespace Tui

open Wrapping

variable {u : Unicode} {width : Nat}
variable {g : List Char} {first second : List (List Char)}

theorem Laid.kept_eq
    {w : Wrapping}
    {cells : List Cell}
    (hLaid : Laid w cells) :
    kept (w.rows.flatten ++ w.row) = kept cells := by
  rcases hLaid with ⟨done, hLays, rfl⟩
  rw [kept_append, kept_append, hLays.kept_flatten]

theorem done_concat
    (first : List (List Char))
    (hNewline : isNewline g = false) :
    ((first ++ [g]).foldl Drawing.passed .start).done =
      (first.foldl Drawing.passed .start).done := by
  rw [List.foldl_append, List.foldl_cons, List.foldl_nil,
    Drawing.passed_of_not_newline _ (by simp [hNewline])]

theorem width_next
    (hSpaced : u.Spaced)
    (second : List (List Char)) :
    (shown cursorStyle
        ((lineRest second).map plainCell)).width u =
      nextWidth u second := by
  unfold nextWidth
  cases lineRest second with
  | nil => exact hSpaced.one
  | cons next rest => rfl

/- A cluster is where the cursor is drawn when it is there. -/
theorem rowBegun_eq
    (hWidth : 1 ≤ width)
    (hNewline : isNewline g = false)
    (hLetter : g ≠ [' ']) :
    rowBegun u width first g second =
      (lineSpot u width first (g :: second)).row := by
  have hC : (plainCell g).isLetter = true :=
    isLetter_plainCell.mpr hLetter
  have hBreak := Cell.isBreak_of_isLetter hC
  have hSpot :
      (((lineBegun first).map plainCell).foldl
          (Reading.step u width) .start).spot u width
          (plainCell g) ((lineRest second).map plainCell) =
        lineSpot u width first (g :: second) := by
    unfold lineSpot Reading.cursorSpot
    rw [lineRest_cons second hNewline]
    exact Reading.spot_congr rfl
  rcases
    @Reading.later_spot u width _
      (((lineBegun first).map plainCell).foldl
        (Reading.step u width) .start)
      ((lineRest second).map plainCell) hBreak with
    ⟨more, later, hRows⟩
  rw [hSpot] at hRows
  have hWrap :
      wrapCells u
          ((lineBegun first ++ g :: lineRest second).map
            plainCell) width false =
        (lineSpot u width first (g :: second)).rows ++
          ((lineSpot u width first (g :: second)).row ++
            plainCell g :: more) :: later := by
    unfold wrapCells
    rw [Nat.max_eq_left hWidth, List.map_append, List.map_cons]
    dsimp only
    rw [if_neg (by simp), wrapFrom_start, List.foldl_append,
      hRows]
    simp [push]
  have hLaid := laid_lineSpot u width first (g :: second)
  unfold rowBegun
  rw [hWrap, ← hLaid.kept_eq]
  exact runTo_append hBreak _ _ more later

/- A space is drawn no later than the place after it. -/
theorem notAfter_space
    (hSpaced : u.Spaced)
    (hWidth : 1 ≤ width)
    (first second : List (List Char))
    (hNewline : isNewline g = false)
    (hSpace : g = [' ']) :
    notAfter (cursorPlace u width first (g :: second))
      (cursorPlace u width (first ++ [g]) second) = true := by
  have hMoves :
      Moves (plainCell g) (lineSpot u width first (g :: second))
        (lineSpot u width (first ++ [g]) second) := by
    unfold lineSpot
    rw [lineRest_cons second hNewline,
      lineBegun_concat first hNewline, List.map_append,
      List.foldl_append]
    exact
      Reading.moves_break cursorStyle _ _ hSpaced.one hWidth
        (isBreak_plainCell.mpr hSpace)
  unfold cursorPlace
  rw [done_concat first hNewline, notAfter_iff]
  dsimp only
  cases hMoves with
  | on hRows hRow =>
      refine Or.inr ⟨by rw [hRows], ?_⟩
      rw [hRow, textOf_concat]
      show _ ≤ u.strWidth (_ ++ g)
      rw [hSpace, hSpaced.space]
      exact Nat.le_succ _
  | down hRows hRow =>
      refine Or.inl ?_
      omega
  | stays hRows hBefore hRow =>
      refine Or.inr ⟨by rw [hRows], ?_⟩
      rw [hBefore, hRow]

/-
  Any other cluster is drawn no later than the place after
  it where it widens its row, if that place is on the row.
-/
theorem notAfter_letter
    (hSpaced : u.Spaced)
    (hWidth : 1 ≤ width)
    (hNewline : isNewline g = false)
    (hLetter : g ≠ [' '])
    (hWide : 1 ≤ u.strWidth g) :
    notAfter (cursorPlace u width first (g :: second))
        (cursorPlace u width (first ++ [g]) second) = true ↔
      (columns u (rowBegun u width first g second) +
          u.strWidth g + nextWidth u second ≤ width →
        u.strWidth (textOf (rowBegun u width first g second)) ≤
          u.strWidth
            (textOf (rowBegun u width first g second) ++ g)) := by
  have hC : (plainCell g).isLetter = true :=
    isLetter_plainCell.mpr hLetter
  have hUsed :=
    (measured_lineSpot u width first (g :: second)).used
  have hNext :
      lineSpot u width (first ++ [g]) second =
        ((lineSpot u width first (g :: second)).push u
          (plainCell g)).room u width
            (shown cursorStyle
              ((lineRest second).map plainCell)) := by
    unfold lineSpot
    rw [lineRest_cons second hNewline,
      lineBegun_concat first hNewline, List.map_append,
      List.foldl_append]
    exact Reading.cursorSpot_letter cursorStyle _ _ hC
  have hColumns :
      ((lineSpot u width first (g :: second)).push u
          (plainCell g)).used =
        columns u (lineSpot u width first (g :: second)).row +
          u.strWidth g := by
    rw [← hUsed]
    rfl
  rw [rowBegun_eq hWidth hNewline hLetter]
  unfold cursorPlace
  rw [done_concat first hNewline, notAfter_iff, hNext, room,
    width_next hSpaced, hColumns]
  dsimp only
  by_cases hFits :
      columns u (lineSpot u width first (g :: second)).row +
        u.strWidth g + nextWidth u second ≤ width
  · rw [if_neg (by omega)]
    have hText :
        textOf
            ((lineSpot u width first (g :: second)).push u
              (plainCell g)).row =
          textOf (lineSpot u width first (g :: second)).row ++
            g :=
      textOf_concat _ _
    rw [hText]
    constructor
    · rintro (hLt | ⟨-, hLe⟩)
      · exact absurd hLt (Nat.lt_irrefl _)
      · exact fun _ => hLe
    · intro hWidens
      exact Or.inr ⟨rfl, hWidens hFits⟩
  · -- the place after the cluster is on the next row
    rw [if_pos (by omega)]
    apply iff_of_true
    · refine Or.inl ?_
      simp [endRow, push]
    · exact fun hLe => absurd hLe hFits

end Tui

------------------------------------------------------------
-- Searching The Boundaries
------------------------------------------------------------

namespace Tui

section Search

variable {bounds : List Nat} {ok : Nat → Bool}
variable {drawn : Nat → Nat × Nat} {place : Nat × Nat}

/- A search keeps a boundary that is drawn early enough. -/
theorem search_last
    (hFalls :
      ∀ (i j b b' : Nat), i ≤ j → bounds[i]? = some b →
        bounds[j]? = some b' →
        notAfter (drawn b') place = true →
        notAfter (drawn b) place = true)
    (lo hi : Nat) :
    lo ≤ hi → hi < bounds.length →
      (∀ b, bounds[lo]? = some b →
        notAfter (drawn b) place = true) →
      (∀ (j b : Nat), hi < j → bounds[j]? = some b →
        notAfter (drawn b) place = false) →
      ∃ k b,
        search bounds drawn place lo hi = some k ∧
          bounds[k]? = some b ∧
          notAfter (drawn b) place = true ∧
          ∀ (j b' : Nat), k < j → bounds[j]? = some b' →
            notAfter (drawn b') place = false := by
  induction lo, hi using
    search.induct bounds drawn place with
  | case1 lo hi hLt mid hNone =>
      intro hLe hBound hLo hAbove
      have hMid : mid < bounds.length := by
        show (lo + hi + 1) / 2 < bounds.length
        omega
      rw [List.getElem?_eq_getElem hMid] at hNone
      cases hNone
  | case2 lo hi hLt mid b hB hEarly ih =>
      intro hLe hBound hLo hAbove
      rw [search, if_pos hLt]
      dsimp only
      rw [hB]
      dsimp only
      rw [if_pos hEarly]
      apply ih _ hBound _ hAbove
      · show (lo + hi + 1) / 2 ≤ hi
        omega
      · intro b' hB'
        rw [hB] at hB'
        cases hB'
        exact hEarly
  | case3 lo hi hLt mid b hB hLate ih =>
      intro hLe hBound hLo hAbove
      rw [search, if_pos hLt]
      dsimp only
      rw [hB]
      dsimp only
      rw [if_neg hLate]
      apply ih _ _ hLo
      · -- what is drawn after the middle is drawn too late
        intro j b' hJ hB'
        rw [Bool.eq_false_iff]
        intro hEarly
        exact hLate (hFalls mid j b b' (by omega) hB hB' hEarly)
      · show lo ≤ (lo + hi + 1) / 2 - 1
        omega
      · show (lo + hi + 1) / 2 - 1 < bounds.length
        omega
  | case4 lo hi hGe =>
      intro hLe hBound hLo hAbove
      have hLast : lo = hi := by omega
      rw [search, if_neg hGe]
      refine
        ⟨lo, bounds[lo], rfl, List.getElem?_eq_getElem _,
          hLo _ (List.getElem?_eq_getElem _), ?_⟩
      rw [hLast]
      exact hAbove

/- The last element that meets a test, found from the end. -/
theorem find?_reverse_of_last
    {k b : Nat}
    (hB : bounds[k]? = some b)
    (hOk : ok b = true)
    (hLast :
      ∀ (j b' : Nat), k < j → bounds[j]? = some b' →
        ok b' = false) :
    bounds.reverse.find? ok = some b := by
  have hLt := (List.getElem?_eq_some_iff.mp hB).1
  have hAt := (List.getElem?_eq_some_iff.mp hB).2
  have hSplit :
      bounds = bounds.take k ++ b :: bounds.drop (k + 1) := by
    rw [← hAt, List.getElem_cons_drop, List.take_append_drop]
  have hNone :
      (bounds.drop (k + 1)).reverse.find? ok = none := by
    rw [List.find?_eq_none]
    intro x hMem
    rcases List.mem_iff_getElem?.mp (List.mem_reverse.mp hMem)
      with ⟨i, hI⟩
    rw [List.getElem?_drop] at hI
    simp [hLast (k + 1 + i) x (by omega) hI]
  rw [hSplit, List.reverse_append, List.reverse_cons,
    List.append_assoc, List.find?_append, hNone,
    Option.none_or]
  simp [hOk]

end Search

end Tui

------------------------------------------------------------
-- Clicks
------------------------------------------------------------

namespace Tui

variable {u : Unicode} {width : Nat} {text : List Char}

/- Where the cursor of a text is drawn, at a boundary. -/
def drawnOf
    (u : Unicode)
    (text : List Char)
    (width b : Nat) : Nat × Nat :=
  Input.drawnAt u ⟨text, b⟩ width

/- The last boundary drawn no later than a place, or the first. -/
def lastDrawn
    (u : Unicode)
    (text : List Char)
    (width : Nat)
    (place : Nat × Nat) : Nat :=
  ((u.graphemes.bounds text).reverse.find?
    (fun b => notAfter (drawnOf u text width b) place)).getD 0

/-
  The cursor's place grows with its boundary, and a click
  lands where a search one by one does.
-/
structure ClicksWell
    (u : Unicode)
    (text : List Char)
    (width : Nat) : Prop where
  grows :
    ∀ b ∈ u.graphemes.bounds text,
      ∀ b' ∈ u.graphemes.bounds text, b ≤ b' →
        notAfter (drawnOf u text width b)
          (drawnOf u text width b') = true
  lands :
    ∀ cursor ∈ u.graphemes.bounds text, ∀ row col,
      Input.click u ⟨text, cursor⟩ width row col =
        some ⟨text, lastDrawn u text width (row, col)⟩

/- The clusters of the entry: line ends, or one or two columns. -/
def OneOrTwo
    (u : Unicode)
    (text : List Char) : Prop :=
  ∀ g ∈ u.graphemes.clusters text,
    isNewline g = true ∨ u.strWidth g = 1 ∨ u.strWidth g = 2

/- A boundary is drawn no later than the next one. -/
def StepGrows
    (u : Unicode)
    (text : List Char)
    (width : Nat) : Prop :=
  ∀ first g second,
    u.graphemes.clusters text = first ++ g :: second →
      notAfter (drawnOf u text width first.flatten.length)
        (drawnOf u text width (first ++ [g]).flatten.length) =
        true

theorem drawnOf_eq
    (hSpaced : u.Spaced)
    (hWidth : 1 ≤ width)
    {first second : List (List Char)}
    (hSplit : u.graphemes.clusters text = first ++ second) :
    drawnOf u text width first.flatten.length =
      cursorPlace u width first second :=
  drawnAt_eq hSpaced hWidth hSplit

theorem stepGrows_iff
    (hSpaced : u.Spaced)
    (hWidth : 1 ≤ width)
    (hWide : OneOrTwo u text) :
    StepGrows u text width ↔ Widens u text width := by
  have hPlaces
      {first second : List (List Char)}
      {g : List Char}
      (hSplit :
        u.graphemes.clusters text = first ++ g :: second) :
      drawnOf u text width first.flatten.length =
          cursorPlace u width first (g :: second) ∧
        drawnOf u text width (first ++ [g]).flatten.length =
          cursorPlace u width (first ++ [g]) second := by
    refine ⟨drawnOf_eq hSpaced hWidth hSplit, ?_⟩
    apply drawnOf_eq hSpaced hWidth
    rw [hSplit, List.append_assoc]
    rfl
  have hColumns
      {first second : List (List Char)}
      {g : List Char}
      (hSplit :
        u.graphemes.clusters text = first ++ g :: second)
      (hNewline : isNewline g = false) :
      1 ≤ u.strWidth g := by
    rcases hWide g (by simp [hSplit]) with hEnd | hOne | hTwo
    · rw [hNewline] at hEnd
      cases hEnd
    · omega
    · omega
  constructor
  · intro hGrows first g second hSplit hNewline hLetter
    have hStep := hGrows first g second hSplit
    rw [(hPlaces hSplit).1, (hPlaces hSplit).2,
      notAfter_letter hSpaced hWidth hNewline hLetter
        (hColumns hSplit hNewline)] at hStep
    exact hStep
  · intro hWidens first g second hSplit
    rw [(hPlaces hSplit).1, (hPlaces hSplit).2]
    cases hNewline : isNewline g with
    | true =>
        exact
          notAfter_newline hSpaced hWidth first second hNewline
    | false =>
        by_cases hSpace : g = [' ']
        · exact
            notAfter_space hSpaced hWidth first second hNewline
              hSpace
        · rw [notAfter_letter hSpaced hWidth hNewline hSpace
            (hColumns hSplit hNewline)]
          exact hWidens first g second hSplit hNewline hSpace

/- From one boundary to any later one. -/
theorem StepGrows.run
    (hGrows : StepGrows u text width)
    (first mid second : List (List Char))
    (hSplit :
      u.graphemes.clusters text = first ++ (mid ++ second)) :
    notAfter (drawnOf u text width first.flatten.length)
      (drawnOf u text width (first ++ mid).flatten.length) =
      true := by
  induction mid generalizing first with
  | nil =>
      rw [List.append_nil]
      exact notAfter_refl _
  | cons g rest ih =>
      have hStep := hGrows first g (rest ++ second) hSplit
      have hRest :=
        ih (first ++ [g]) (by
          rw [hSplit, List.append_assoc]
          rfl)
      rw [List.append_assoc, List.singleton_append] at hRest
      exact notAfter_trans hStep hRest

theorem StepGrows.grows
    (hGrows : StepGrows u text width) :
    ∀ b ∈ u.graphemes.bounds text,
      ∀ b' ∈ u.graphemes.bounds text, b ≤ b' →
        notAfter (drawnOf u text width b)
          (drawnOf u text width b') = true := by
  intro b hB b' hB' hLe
  rcases Segmentation.mem_bounds_iff.mp hB with
    ⟨first, second, hSplit, rfl⟩
  rcases Segmentation.mem_bounds_iff.mp hB' with
    ⟨first', second', hSplit', rfl⟩
  rcases
    List.prefix_or_prefix_of_prefix ⟨second, hSplit.symm⟩
      ⟨second', hSplit'.symm⟩ with
    ⟨mid, rfl⟩ | ⟨mid, rfl⟩
  · rw [List.append_assoc] at hSplit'
    exact hGrows.run first mid second' hSplit'
  · -- the later boundary is the same one
    have hSame :
        (first' ++ mid).flatten.length =
          first'.flatten.length := by
      rw [List.flatten_append, List.length_append] at hLe ⊢
      omega
    rw [hSame]
    exact notAfter_refl _

/- A click on a place lands as a search one by one does. -/
theorem lands_of_grows
    (hGrows :
      ∀ b ∈ u.graphemes.bounds text,
        ∀ b' ∈ u.graphemes.bounds text, b ≤ b' →
          notAfter (drawnOf u text width b)
            (drawnOf u text width b') = true)
    (cursor row col : Nat) :
    Input.click u ⟨text, cursor⟩ width row col =
      some ⟨text, lastDrawn u text width (row, col)⟩ := by
  have hFirst : (u.graphemes.bounds text)[0]? = some 0 := rfl
  have hBounds :
      Input.bounds u ⟨text, cursor⟩ = u.graphemes.bounds text :=
    rfl
  unfold Input.click
  dsimp only
  rw [hBounds, hFirst]
  show
    (if !notAfter (drawnOf u text width 0) (row, col) then
      some (⟨text, 0⟩ : Input)
    else
      (search (u.graphemes.bounds text) (drawnOf u text width)
          (row, col) 0
          ((u.graphemes.bounds text).length - 1)).bind
        (fun lo =>
          ((u.graphemes.bounds text)[lo]?).map
            (fun b => (⟨text, b⟩ : Input)))) = _
  by_cases hEarly :
      notAfter (drawnOf u text width 0) (row, col) = true
  · have hFalls :
        ∀ (i j b b' : Nat), i ≤ j →
          (u.graphemes.bounds text)[i]? = some b →
          (u.graphemes.bounds text)[j]? = some b' →
          notAfter (drawnOf u text width b') (row, col) = true →
          notAfter (drawnOf u text width b) (row, col) =
            true := by
      intro i j b b' hLe hB hB' hOk
      exact
        notAfter_trans
          (hGrows b (List.mem_of_getElem? hB) b'
            (List.mem_of_getElem? hB')
            (Segmentation.getElem?_bounds_le hLe hB hB'))
          hOk
    rcases
      search_last hFalls 0
        ((u.graphemes.bounds text).length - 1)
        (Nat.zero_le _)
        (Nat.sub_lt (by simp [Segmentation.bounds]) Nat.one_pos)
        (by
          intro b hB
          rw [hFirst] at hB
          cases hB
          exact hEarly)
        (by
          intro j b hJ hB
          have hLt := (List.getElem?_eq_some_iff.mp hB).1
          omega) with
      ⟨k, b, hSearch, hB, hOk, hLast⟩
    have hFind :=
      @find?_reverse_of_last _
        (fun b => notAfter (drawnOf u text width b) (row, col))
        k b hB hOk hLast
    rw [if_neg (by simp [hEarly]), hSearch, Option.bind_some,
      hB]
    unfold lastDrawn
    rw [hFind]
    rfl
  · have hNone :
        (u.graphemes.bounds text).reverse.find?
            (fun b =>
              notAfter (drawnOf u text width b) (row, col)) =
          none := by
      rw [List.find?_eq_none]
      intro b hMem hOk
      apply hEarly
      exact
        notAfter_trans
          (hGrows 0 (Segmentation.zero_mem_bounds _ _) b
            (List.mem_reverse.mp hMem) (Nat.zero_le b))
          hOk
    rw [if_pos (by simp [hEarly])]
    unfold lastDrawn
    rw [hNone]
    rfl

/-
  A text of clusters of one or two columns is clicked well
  exactly where each cluster widens its row.
-/
theorem clicksWell_iff
    (hSpaced : u.Spaced)
    (hWide : OneOrTwo u text)
    (hWidth : 2 ≤ width) :
    ClicksWell u text width ↔ Widens u text width := by
  have hPos : 1 ≤ width := by omega
  rw [← stepGrows_iff hSpaced hPos hWide]
  constructor
  · intro hWell first g second hSplit
    apply hWell.grows
    · exact
        Segmentation.mem_bounds_iff.mpr
          ⟨first, g :: second, hSplit, rfl⟩
    · refine
        Segmentation.mem_bounds_iff.mpr
          ⟨first ++ [g], second, ?_, rfl⟩
      rw [hSplit, List.append_assoc]
      rfl
    · simp
  · intro hGrows
    exact
      { grows := hGrows.grows
        lands := fun cursor _ row col =>
          lands_of_grows hGrows.grows cursor row col }

/- Two words and a second line, at a width of one word. -/
theorem clicksWell_twoLines :
    ClicksWell crlf ['a', 'b', ' ', 'c', 'd', '\r', '\n', 'e']
      3 := by
  refine (clicksWell_iff ⟨rfl, ?_⟩ ?_ (by decide)).mpr ?_
  · intro s
    simp [crlf]
  · unfold OneOrTwo
    decide
  · intro first g second _ _ _ _
    simp [crlf]

/- A character that joins the one before it. -/
def joiner : Char :=
  '\u2D7F'

def isConsonant
    (c : Char) : Bool :=
  '\u2D31' ≤ c ∧ c ≤ '\u2D65'

/- A character before some clusters, a joiner joined to it. -/
def joinTo
    (c : Char) : List (List Char) → List (List Char)
| g :: rest =>
    if g.head? = some joiner then (c :: g) :: rest
    else [c] :: g :: rest
| [] => [[c]]

/- A joiner between two consonants makes one column of them. -/
def joinedWidth : List Char → Nat
| x :: y :: z :: rest =>
    if isConsonant x ∧ y = joiner ∧ isConsonant z then
      1 + joinedWidth rest
    else 1 + joinedWidth (y :: z :: rest)
| rest => rest.length

theorem flatten_joinTo
    (c : Char)
    (gs : List (List Char)) :
    (joinTo c gs).flatten = c :: gs.flatten := by
  cases gs with
  | nil => rfl
  | cons g rest =>
      rw [joinTo]
      split <;> rfl

theorem nil_not_mem_joinTo
    (c : Char)
    {gs : List (List Char)}
    (hNonempty : [] ∉ gs) :
    [] ∉ joinTo c gs := by
  cases gs with
  | nil => simp [joinTo]
  | cons g rest =>
      rw [List.mem_cons, not_or] at hNonempty
      rw [joinTo]
      split
      · simp [hNonempty.2]
      · simp [hNonempty.1, hNonempty.2]

theorem joinedWidth_space
    (s : List Char) :
    joinedWidth (s ++ [' ']) = joinedWidth s + 1 := by
  have hSpace : isConsonant ' ' = false := by decide
  induction s using joinedWidth.induct with
  | case1 x y z rest hJoined ih =>
      simp only [List.cons_append, joinedWidth]
      rw [if_pos hJoined, if_pos hJoined, ih, Nat.add_assoc]
  | case2 x y z rest hApart ih =>
      simp only [List.cons_append, joinedWidth] at ih ⊢
      rw [if_neg hApart, if_neg hApart, ih, Nat.add_assoc]
  | case3 rest hShort =>
      match rest, hShort with
      | [], _ => rfl
      | [x], _ => rfl
      | [x, y], _ => simp [joinedWidth, hSpace]
      | x :: y :: z :: rest, hShort =>
          exact absurd rfl (hShort x y z rest)

def joined : Unicode where
  graphemes :=
    { clusters := fun s => s.foldr joinTo []
      flatten_clusters := by
        intro s
        induction s with
        | nil => rfl
        | cons c rest ih =>
            rw [List.foldr_cons, flatten_joinTo, ih]
      nonempty := by
        intro s
        induction s with
        | nil => simp
        | cons c rest ih => exact nil_not_mem_joinTo c ih }
  strWidth := joinedWidth

theorem spaced_joined :
    joined.Spaced where
  empty := rfl
  space := joinedWidth_space

/- Two consonants, joined: the second is drawn before its start. -/
theorem not_clicksWell :
    ¬ ∀ (u : Unicode) (text : List Char) (width : Nat),
        u.Spaced → OneOrTwo u text → 2 ≤ width →
          ClicksWell u text width := by
  intro hClaim
  have hWell :=
    hClaim joined ['\u2D4F', joiner, '\u2D3E'] 10 spaced_joined
      (by
        unfold OneOrTwo
        decide)
      (by decide)
  have hGrows :=
    hWell.grows 2 (by decide) 3 (by decide) (by decide)
  have hBefore :=
    @drawnOf_eq joined 10 ['\u2D4F', joiner, '\u2D3E']
      spaced_joined (by decide) [['\u2D4F', joiner]]
      [['\u2D3E']] (by decide)
  have hAfter :=
    @drawnOf_eq joined 10 ['\u2D4F', joiner, '\u2D3E']
      spaced_joined (by decide)
      [['\u2D4F', joiner], ['\u2D3E']] [] (by decide)
  have hFirst :
      drawnOf joined ['\u2D4F', joiner, '\u2D3E'] 10 2 =
        (0, 2) :=
    hBefore.trans (by decide)
  have hSecond :
      drawnOf joined ['\u2D4F', joiner, '\u2D3E'] 10 3 =
        (0, 1) :=
    hAfter.trans (by decide)
  rw [hFirst, hSecond] at hGrows
  cases hGrows

end Tui
