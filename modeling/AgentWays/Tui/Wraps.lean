import AgentWays.Tui.LaidRows

/-
  What a wrap keeps: every cell that is no break, the width
  of its rows, and its words whole.

  A word is put whole on a row where it fits and on a row of
  its own where it does not, but the spaces that open a row
  stay: after them a word is broken where the row ends.

  Key definitions include:
    * `Tui.EndsAt`
    * `Tui.wordsOf`
    * `Tui.steps`
    * `Tui.WrapsWell`

  Main declarations:
    * `Tui.whole_wrapFrom`
    * `Tui.wrapsWell_iff`
-/

------------------------------------------------------------
-- Where Rows End
------------------------------------------------------------

namespace Tui

variable {u : Unicode} {width : Nat}

/- A row ends after so many kept cells. -/
def EndsAt
    (rows : List Row)
    (k : Nat) : Prop :=
  ∃ earlier later,
    rows = earlier ++ later ∧ (kept earlier.flatten).length = k

/- No row ends inside the kept cells from here on, so many. -/
def Unsplit
    (rows : List Row)
    (before count : Nat) : Prop :=
  ∀ k, EndsAt rows k → k ≤ before ∨ before + count ≤ k

theorem endsAt_concat
    {rows : List Row}
    {row : Row}
    {k : Nat} :
    EndsAt (rows ++ [row]) k ↔
      EndsAt rows k ∨
        (kept (rows ++ [row]).flatten).length = k := by
  constructor
  · rintro ⟨earlier, later, hSplit, hCount⟩
    rcases List.eq_nil_or_concat later with rfl | ⟨rest, last, rfl⟩
    · rw [List.append_nil] at hSplit
      rw [← hSplit] at hCount
      exact Or.inr hCount
    · rw [List.concat_eq_append, ← List.append_assoc] at hSplit
      have hRows := (List.append_inj' hSplit rfl).1
      exact Or.inl ⟨earlier, rest, hRows, hCount⟩
  · rintro (⟨earlier, later, rfl, hCount⟩ | hCount)
    · exact
        ⟨earlier, later ++ [row], List.append_assoc .., hCount⟩
    · exact ⟨_, [], (List.append_nil _).symm, hCount⟩

theorem endsAt_le
    {rows : List Row}
    {k : Nat}
    (hEnds : EndsAt rows k) :
    k ≤ (kept rows.flatten).length := by
  rcases hEnds with ⟨earlier, later, rfl, rfl⟩
  rw [List.flatten_append, kept_append, List.length_append]
  exact Nat.le_add_right _ _

/- Trimming leaves every row's end where it is. -/
theorem endsAt_trimmed
    {rows : List Row}
    {k : Nat} :
    EndsAt (rows.map (List.rdropWhile Cell.isBreak)) k ↔
      EndsAt rows k := by
  have hKept (some : List Row) :
      kept
          (some.map (List.rdropWhile Cell.isBreak)).flatten =
        kept some.flatten := by
    induction some with
    | nil => rfl
    | cons row rest ih =>
        have hTail :
            Breaks (row.rtakeWhile Cell.isBreak) := by
          intro c hMem
          exact List.mem_rtakeWhile_imp hMem
        rw [List.map_cons, List.flatten_cons,
          List.flatten_cons, kept_append, kept_append, ih]
        conv_rhs =>
          rw [← List.rdropWhile_append_rtakeWhile
            (p := Cell.isBreak) (l := row)]
        rw [kept_append, kept_eq_nil_iff.mpr hTail,
          List.append_nil]
  constructor
  · rintro ⟨earlier, later, hSplit, hCount⟩
    rcases List.map_eq_append_iff.mp hSplit with
      ⟨front, back, rfl, rfl, rfl⟩
    rw [hKept] at hCount
    exact ⟨front, back, rfl, hCount⟩
  · rintro ⟨earlier, later, rfl, hCount⟩
    refine
      ⟨earlier.map (List.rdropWhile Cell.isBreak),
        later.map (List.rdropWhile Cell.isBreak),
        List.map_append, ?_⟩
    rw [hKept]
    exact hCount

namespace Wrapping

/- How many cells on the rows are kept ones. -/
def count
    (w : Wrapping) : Nat :=
  (kept w.cells).length

theorem endsAt_endRow
    {w : Wrapping}
    {k : Nat} :
    EndsAt w.endRow.rows k ↔ EndsAt w.rows k ∨ w.count = k := by
  have hFlatten :
      (w.rows ++ [w.row]).flatten = w.cells := by
    simp [cells]
  show EndsAt (w.rows ++ [w.row]) k ↔ _
  rw [endsAt_concat, hFlatten]
  rfl

theorem endsAt_le_count
    {w : Wrapping}
    {k : Nat}
    (hEnds : EndsAt w.rows k) :
    k ≤ w.count := by
  have hCount := endsAt_le hEnds
  unfold count cells
  rw [kept_append, List.length_append]
  omega

/-
  Rows that have ended stay as they are, and those that end
  later hold at least the cells so far.
-/
structure Onward
    (w w' : Wrapping) : Prop where
  count : w.count ≤ w'.count
  keeps : ∀ k, EndsAt w.rows k → EndsAt w'.rows k
  adds : ∀ k, EndsAt w'.rows k → EndsAt w.rows k ∨ w.count ≤ k

namespace Onward

variable {w w' w'' : Wrapping}

theorem refl
    (w : Wrapping) :
    Onward w w where
  count := Nat.le_refl _
  keeps _ hEnds := hEnds
  adds _ hEnds := Or.inl hEnds

theorem trans
    (hOnward : Onward w w')
    (hOnward' : Onward w' w'') :
    Onward w w'' where
  count := Nat.le_trans hOnward.count hOnward'.count
  keeps k hEnds := hOnward'.keeps k (hOnward.keeps k hEnds)
  adds k hEnds := by
    rcases hOnward'.adds k hEnds with hOld | hNew
    · exact hOnward.adds k hOld
    · exact Or.inr (Nat.le_trans hOnward.count hNew)

/- Where the rows are the same, only the last one grows. -/
theorem of_rows
    (hRows : w'.rows = w.rows)
    (hCount : w.count ≤ w'.count) :
    Onward w w' where
  count := hCount
  keeps k hEnds := by
    rw [hRows]
    exact hEnds
  adds k hEnds := by
    rw [hRows] at hEnds
    exact Or.inl hEnds

theorem endRow
    (w : Wrapping) :
    Onward w w.endRow where
  count := by
    unfold Wrapping.count
    rw [cells_endRow]
  keeps k hEnds := endsAt_endRow.mpr (Or.inl hEnds)
  adds k hEnds := by
    rcases endsAt_endRow.mp hEnds with hOld | hNew
    · exact Or.inl hOld
    · exact Or.inr (Nat.le_of_eq hNew)

theorem push
    (w : Wrapping)
    (c : Cell) :
    Onward w (w.push u c) := by
  refine of_rows (by rfl) ?_
  unfold Wrapping.count
  rw [cells_push, kept_append, List.length_append]
  exact Nat.le_add_right _ _

theorem endRow_push
    (w : Wrapping)
    (c : Cell) :
    Onward w (w.endRow.push u c) :=
  (endRow w).trans (push w.endRow c)

theorem space
    (w : Wrapping)
    (c : Cell) :
    Onward w (Wrapping.space u width w c) := by
  unfold Wrapping.space
  split
  · exact endRow_push w c
  · exact push w c

theorem cluster
    (w : Wrapping)
    (c : Cell) :
    Onward w (Wrapping.cluster u width w c) := by
  unfold Wrapping.cluster
  split
  · exact endRow_push w c
  · exact push w c

theorem foldl
    {step : Wrapping → Cell → Wrapping}
    (hStep : ∀ w c, Onward w (step w c))
    (w : Wrapping)
    (cells : List Cell) :
    Onward w (cells.foldl step w) := by
  induction cells generalizing w with
  | nil => exact refl w
  | cons c rest ih => exact (hStep w c).trans (ih (step w c))

theorem word
    (w : Wrapping)
    (spaces cells : List Cell) :
    Onward w (w.word u width spaces cells) := by
  unfold Wrapping.word
  dsimp only
  split
  · refine of_rows (by rfl) ?_
    unfold Wrapping.count Wrapping.cells
    simp only [kept_append, List.length_append]
    omega
  · refine Onward.trans ?_ (foldl cluster _ cells)
    split
    · exact endRow w
    · exact foldl space w spaces

end Onward

theorem onward_wrapFrom
    (trim : Bool)
    (w : Wrapping)
    (cells : List Cell) :
    Onward w (wrapFrom u width trim w cells) := by
  induction w, cells using wrapFrom.induct u width trim with
  | case1 w =>
      rw [wrapFrom, dif_pos rfl]
      exact Onward.refl w
  | case2 w cells hCells after word hTrim =>
      rw [wrapFrom, dif_neg hCells]
      dsimp only
      rw [if_pos hTrim]
      exact Onward.refl w
  | case3 w cells hCells spaces after word hTrim ih =>
      rw [wrapFrom, dif_neg hCells]
      dsimp only
      rw [if_neg hTrim]
      exact (Onward.word w _ _).trans ih

end Wrapping

end Tui

------------------------------------------------------------
-- Words
------------------------------------------------------------

namespace Tui

variable (u : Unicode) (width : Nat)

/- The words of a run of cells, in their order. -/
def wordsOf
    (cells : List Cell) : List (List Cell) :=
  if _hCells : cells = [] then []
  else
    let after := cells.dropWhile Cell.isBreak
    let word := wordOf after
    if word.isEmpty then []
    else word :: wordsOf (after.drop word.length)
termination_by cells.length
decreasing_by exact length_drop_wordOf _hCells

/- A word with the spaces before it, and the rows so far. -/
structure Step where
  before : Wrapping
  spaces : List Cell
  word : List Cell

/- The steps that a wrap takes, word by word. -/
def steps
    (trim : Bool)
    (w : Wrapping)
    (cells : List Cell) : List Step :=
  if _hCells : cells = [] then []
  else
    let spaces := cells.takeWhile Cell.isBreak
    let after := cells.dropWhile Cell.isBreak
    let word := wordOf after
    if trim && word.isEmpty && !w.row.isEmpty then []
    else
      { before := w, spaces := spaces, word := word } ::
        steps trim (w.word u width spaces word)
          (after.drop word.length)
termination_by cells.length
decreasing_by exact length_drop_wordOf _hCells

/- The columns that spaces take on the row they open. -/
def indent
    (spaces : List Cell) : Nat :=
  spaces.foldl
    (fun used c =>
      if used + c.width u > width then c.width u
      else used + c.width u)
    0

/-
  A word that fits a row is split where spaces open its row,
  and leave room for its first cluster, not for all of it.
-/
structure Step.Splits
    (s : Step) : Prop where
  opens : s.before.used = 0
  fits : columns u s.word ≤ width
  spaces : 0 < indent u width s.spaces
  first :
    ∃ c, s.word.head? = some c ∧
      indent u width s.spaces + c.width u ≤ width
  wider : width < indent u width s.spaces + columns u s.word

/-
  The cells that are no breaks, in order; the breaks left out
  where rows end; the width; and the words whole.
-/
structure WrapsWell
    (cells : List Cell)
    (trim : Bool)
    (rows : List Row) : Prop where
  keeps : kept rows.flatten = kept cells
  drops :
    if trim then Lays rows cells
    else
      ∃ earlier done last,
        rows = earlier ++ [last] ∧ Lays earlier done ∧
          cells = done ++ last
  narrow : ∀ row ∈ rows, Narrow u width row
  whole :
    ∀ before word after,
      wordsOf cells = before ++ word :: after →
        columns u word ≤ width →
        Unsplit rows before.flatten.length word.length

end Tui

------------------------------------------------------------
-- The Clusters Of A Word
------------------------------------------------------------

namespace Tui

variable {u : Unicode} {width : Nat}

/- Cells with no break among them. -/
def Solid
    (cells : List Cell) : Prop :=
  ∀ c ∈ cells, c.isBreak = false

theorem kept_of_solid
    {cells : List Cell}
    (hSolid : Solid cells) :
    kept cells = cells := by
  unfold kept
  rw [List.filter_eq_self]
  intro c hMem
  rw [hSolid c hMem]
  rfl

theorem solid_wordOf
    {cells : List Cell} :
    Solid (wordOf cells) := by
  intro c hMem
  cases cells with
  | nil => cases hMem
  | cons d rest =>
      rw [wordOf] at hMem
      by_cases hBreak : d.isBreak
      · rw [if_pos hBreak] at hMem
        cases hMem
      · rw [if_neg hBreak] at hMem
        have hFirst : d.isBreak = false := by
          simpa using hBreak
        by_cases hLone : d.isLone
        · rw [if_pos hLone] at hMem
          rw [List.mem_singleton.mp hMem]
          exact hFirst
        · rw [if_neg hLone] at hMem
          rcases List.mem_cons.mp hMem with rfl | hRest
          · exact hFirst
          · have hNot := List.mem_takeWhile_imp hRest
            simp only [Bool.and_eq_true,
              Bool.not_eq_true'] at hNot
            exact hNot.1

namespace Wrapping

variable {w : Wrapping}

theorem count_push
    {c : Cell}
    (hSolid : c.isBreak = false) :
    (w.push u c).count = w.count + 1 := by
  unfold count
  rw [cells_push, kept_append, List.length_append]
  simp [kept, hSolid]

theorem count_endRow :
    w.endRow.count = w.count := by
  unfold count
  rw [cells_endRow]

/- Clusters that fit the row end no row. -/
theorem rows_cluster_of_fits
    {cells : List Cell}
    (hFits : w.used + columns u cells ≤ width) :
    (cells.foldl (cluster u width) w).rows = w.rows := by
  induction cells generalizing w with
  | nil => rfl
  | cons c rest ih =>
      rw [columns_cons] at hFits
      have hStep : cluster u width w c = w.push u c := by
        unfold cluster
        rw [if_neg]
        omega
      rw [List.foldl_cons, hStep, ih]
      · rfl
      · show w.used + c.width u + columns u rest ≤ width
        omega

/- A word that the first cluster takes to a row of its own. -/
theorem rows_cluster_of_moved
    {c : Cell}
    {cells : List Cell}
    (hUsed : 0 < w.used)
    (hOver : width < w.used + c.width u)
    (hFits : columns u (c :: cells) ≤ width) :
    ((c :: cells).foldl (cluster u width) w).rows =
      w.endRow.rows := by
  rw [columns_cons] at hFits
  have hStep :
      cluster u width w c = w.endRow.push u c := by
    unfold cluster
    rw [if_pos ⟨hOver, hUsed⟩]
  rw [List.foldl_cons, hStep, rows_cluster_of_fits]
  · rfl
  · show 0 + c.width u + columns u cells ≤ width
    omega

/- Clusters that go over the width end a row among them. -/
theorem exists_end_of_over
    {cells : List Cell}
    (hSolid : Solid cells)
    (hUsed : 0 < w.used)
    (hWithin : w.used ≤ width)
    (hOver : width < w.used + columns u cells) :
    ∃ k, EndsAt (cells.foldl (cluster u width) w).rows k ∧
      w.count ≤ k ∧ k < w.count + cells.length := by
  induction cells generalizing w with
  | nil =>
      rw [columns_nil] at hOver
      omega
  | cons c rest ih =>
      have hBreak := hSolid c List.mem_cons_self
      have hRest : Solid rest :=
        fun d hMem => hSolid d (List.mem_cons_of_mem c hMem)
      rw [columns_cons] at hOver
      rw [List.foldl_cons, List.length_cons]
      by_cases hFirst : width < w.used + c.width u
      · have hStep :
            cluster u width w c = w.endRow.push u c := by
          unfold cluster
          rw [if_pos ⟨hFirst, hUsed⟩]
        rw [hStep]
        have hEnds : EndsAt (w.endRow.push u c).rows w.count :=
          endsAt_endRow.mpr (Or.inr rfl)
        have hLater :=
          (Onward.foldl (@Onward.cluster u width)
            (w.endRow.push u c) rest).keeps _ hEnds
        exact ⟨w.count, hLater, Nat.le_refl _, by omega⟩
      · have hStep : cluster u width w c = w.push u c := by
          unfold cluster
          rw [if_neg]
          omega
        have hPush :
            (w.push u c).used = w.used + c.width u :=
          rfl
        rw [hStep]
        rcases
          ih (w := w.push u c) hRest (by omega) (by omega)
            (by omega) with
          ⟨k, hEnds, hFrom, hTo⟩
        rw [count_push hBreak] at hFrom hTo
        exact ⟨k, hEnds, by omega, by omega⟩

/- Spaces fill the row they open as their indent says. -/
theorem used_space
    (u : Unicode)
    (width : Nat)
    (w : Wrapping)
    (spaces : List Cell) :
    (spaces.foldl (space u width) w).used =
      spaces.foldl
        (fun used c =>
          if used + c.width u > width then c.width u
          else used + c.width u)
        w.used := by
  induction spaces generalizing w with
  | nil => rfl
  | cons c rest ih =>
      rw [List.foldl_cons, List.foldl_cons, ih]
      congr 1
      unfold space
      split
      · exact Nat.zero_add _
      · rfl

end Wrapping

end Tui

------------------------------------------------------------
-- One Word
------------------------------------------------------------

namespace Tui

variable {u : Unicode} {width : Nat}

theorem indent_of_fits
    {spaces : List Cell}
    (used : Nat)
    (hFits : used + columns u spaces ≤ width) :
    spaces.foldl
        (fun used c =>
          if used + c.width u > width then c.width u
          else used + c.width u)
        used =
      used + columns u spaces := by
  induction spaces generalizing used with
  | nil => rfl
  | cons c rest ih =>
      rw [columns_cons] at hFits ⊢
      rw [List.foldl_cons, if_neg (by omega), ih _ (by omega)]
      omega

namespace Wrapping

variable {w : Wrapping} {spaces word : List Cell}

theorem unsplit_of_le_count
    {rows : List Row}
    {k n : Nat}
    (hLe : ∀ k, EndsAt rows k → k ≤ n) :
    Unsplit rows n k :=
  fun k hEnds => Or.inl (hLe k hEnds)

theorem count_spaces
    (hSpaces : Breaks spaces) :
    (spaces.foldl (space u width) w).count = w.count := by
  unfold count
  rw [cells_foldl cells_space, kept_append,
    kept_eq_nil_iff.mpr hSpaces, List.append_nil]

theorem count_word
    (hSpaces : Breaks spaces)
    (hSolid : Solid word) :
    (w.word u width spaces word).count =
      w.count + word.length := by
  unfold count
  rcases w.cells_word u width spaces word with hAll | hNone
  · rw [hAll, kept_append, kept_append,
      kept_eq_nil_iff.mpr hSpaces, List.append_nil,
      kept_of_solid hSolid, List.length_append]
  · rw [hNone, kept_append, kept_of_solid hSolid,
      List.length_append]

/- After spaces that open a row, a word is split or it is not. -/
theorem unsplit_opened
    (hSpaces : Breaks spaces)
    (hSolid : Solid word)
    (hFits : columns u word ≤ width)
    (hUsed : w.used = 0) :
    Unsplit
        (word.foldl (cluster u width)
          (spaces.foldl (space u width) w)).rows
        w.count word.length ↔
      ¬ Step.Splits u width ⟨w, spaces, word⟩ := by
  let opened := spaces.foldl (space u width) w
  have hIndent : opened.used = indent u width spaces := by
    show (spaces.foldl (space u width) w).used = _
    rw [used_space, hUsed]
    rfl
  have hCount : opened.count = w.count := count_spaces hSpaces
  by_cases hRoom : opened.used + columns u word ≤ width
  · have hRows := rows_cluster_of_fits (w := opened) hRoom
    have hUnsplit :
        Unsplit (word.foldl (cluster u width) opened).rows
          w.count word.length := by
      apply unsplit_of_le_count
      intro k hEnds
      rw [hRows] at hEnds
      rw [← hCount]
      exact endsAt_le_count hEnds
    apply iff_of_true hUnsplit
    intro hSplits
    have hOver := hSplits.wider
    rw [← hIndent] at hOver
    exact Nat.not_lt.mpr hRoom hOver
  cases word with
  | nil =>
      apply iff_of_true
      · intro k _
        exact Nat.le_total k w.count
      · intro hSplits
        rcases hSplits.first with ⟨c, hHead, _⟩
        cases hHead
  | cons c rest =>
      have hRest : Solid rest :=
        fun d hMem => hSolid d (List.mem_cons_of_mem c hMem)
      by_cases hFirst : opened.used + c.width u ≤ width
      · apply iff_of_false
        · -- The first cluster is put beside the spaces, and a
          -- later one goes over.
          have hStep : cluster u width opened c = opened.push u c := by
            unfold cluster
            rw [if_neg]
            omega
          have hPush :
              (opened.push u c).used = opened.used + c.width u :=
            rfl
          have hBreak := hSolid c List.mem_cons_self
          rw [columns_cons] at hFits hRoom
          rcases
            @exists_end_of_over u width (opened.push u c) _ hRest
              (by omega) (by omega) (by omega) with
            ⟨k, hEnds, hFrom, hTo⟩
          intro hUnsplit
          rw [count_push hBreak, hCount] at hFrom hTo
          rw [← hStep, ← List.foldl_cons] at hEnds
          have hApart := hUnsplit k hEnds
          rw [List.length_cons] at hApart
          omega
        · rw [not_not]
          exact
            { opens := hUsed
              fits := hFits
              spaces := by
                rw [← hIndent]
                omega
              first := ⟨c, rfl, by rwa [← hIndent]⟩
              wider := by
                rw [← hIndent]
                exact Nat.not_le.mp hRoom }
      · apply iff_of_true
        · have hRows :=
            rows_cluster_of_moved (w := opened) (by omega)
              (Nat.not_le.mp hFirst) hFits
          apply unsplit_of_le_count
          intro k hEnds
          rw [hRows] at hEnds
          rw [← hCount, ← count_endRow]
          exact endsAt_le_count hEnds
        · intro hSplits
          rcases hSplits.first with ⟨d, hHead, hLe⟩
          cases hHead
          rw [← hIndent] at hLe
          exact hFirst hLe

/- A word is whole but where it splits after spaces. -/
theorem unsplit_word
    (hSpaces : Breaks spaces)
    (hSolid : Solid word)
    (hFits : columns u word ≤ width) :
    Unsplit (w.word u width spaces word).rows w.count
        word.length ↔
      ¬ Step.Splits u width ⟨w, spaces, word⟩ := by
  unfold Wrapping.word
  dsimp only
  split
  · rename_i hAll
    apply iff_of_true
    · apply unsplit_of_le_count
      intro k hEnds
      exact endsAt_le_count (w := w) hEnds
    · intro hSplits
      have hUsed := hSplits.opens
      have hOver := hSplits.wider
      dsimp only at hUsed hOver
      have hColumns : 0 + columns u spaces ≤ width := by
        unfold columns
        omega
      unfold indent at hOver
      rw [indent_of_fits 0 hColumns] at hOver
      unfold columns at hOver
      omega
  · by_cases hUsed : w.used > 0
    · rw [if_pos hUsed]
      apply iff_of_true
      · have hRows :=
          @rows_cluster_of_fits u width w.endRow word (by
            rw [endRow, Nat.zero_add]
            exact hFits)
        apply unsplit_of_le_count
        intro k hEnds
        rw [hRows] at hEnds
        rw [← count_endRow]
        exact endsAt_le_count hEnds
      · intro hSplits
        have hZero := hSplits.opens
        dsimp only at hZero
        omega
    · rw [if_neg hUsed]
      exact
        unsplit_opened hSpaces hSolid hFits
          (Nat.eq_zero_of_not_pos hUsed)

end Wrapping

end Tui

------------------------------------------------------------
-- Every Word
------------------------------------------------------------

namespace Tui

variable {u : Unicode} {width : Nat}

/- The words are the cells that are no breaks. -/
theorem flatten_wordsOf
    (cells : List Cell) :
    (wordsOf cells).flatten = kept cells := by
  induction cells using wordsOf.induct with
  | case1 =>
      rw [wordsOf, dif_pos rfl]
      rfl
  | case2 cells hCells after word hEmpty =>
      rw [wordsOf, dif_neg hCells]
      dsimp only
      rw [if_pos hEmpty]
      have hBreaks :=
        (wordOf_dropWhile_eq_nil_iff cells).mp
          (List.isEmpty_iff.mp hEmpty)
      exact (kept_eq_nil_iff.mpr hBreaks).symm
  | case3 cells hCells after word hWord ih =>
      rw [wordsOf, dif_neg hCells]
      dsimp only
      rw [if_neg hWord, List.flatten_cons, ih]
      conv_rhs => rw [← split_word cells]
      rw [kept_append, kept_append,
        kept_eq_nil_iff.mpr (breaks_takeWhile cells),
        kept_of_solid solid_wordOf]
      rfl

/- The first word at its place, and the others at theirs. -/
theorem forall_split_cons
    {word : List Cell}
    {words : List (List Cell)}
    {p : Nat → List Cell → Prop} :
    (∀ before mid after,
        word :: words = before ++ mid :: after →
          p before.flatten.length mid) ↔
      p 0 word ∧
        ∀ before mid after, words = before ++ mid :: after →
          p (word.length + before.flatten.length) mid := by
  constructor
  · intro hAll
    refine ⟨hAll [] word words rfl, ?_⟩
    rintro before mid after rfl
    have hLater := hAll (word :: before) mid after rfl
    rwa [List.flatten_cons, List.length_append] at hLater
  · rintro ⟨hFirst, hRest⟩ before mid after hSplit
    cases before with
    | nil =>
        cases hSplit
        exact hFirst
    | cons first rest =>
        cases hSplit
        rw [List.flatten_cons, List.length_append]
        exact hRest rest mid after rfl

/- Rows that end later end past the word. -/
theorem unsplit_onward
    {w w' : Wrapping}
    {before count : Nat}
    (hOnward : w.Onward w')
    (hPast : before + count ≤ w.count) :
    Unsplit w'.rows before count ↔
      Unsplit w.rows before count := by
  constructor
  · intro hUnsplit k hEnds
    exact hUnsplit k (hOnward.keeps k hEnds)
  · intro hUnsplit k hEnds
    rcases hOnward.adds k hEnds with hOld | hNew
    · exact hUnsplit k hOld
    · exact Or.inr (Nat.le_trans hPast hNew)

theorem whole_wrapFrom
    (trim : Bool)
    (w : Wrapping)
    (cells : List Cell) :
    (∀ before word after,
        wordsOf cells = before ++ word :: after →
          columns u word ≤ width →
          Unsplit (wrapFrom u width trim w cells).rows
            (w.count + before.flatten.length) word.length) ↔
      ∀ s ∈ steps u width trim w cells,
        ¬ s.Splits u width := by
  induction w, cells using wrapFrom.induct u width trim with
  | case1 w =>
      rw [wordsOf, dif_pos rfl, steps, dif_pos rfl]
      apply iff_of_true
      · intro before word after hSplit
        simp at hSplit
      · intro s hMem
        cases hMem
  | case2 w cells hCells after word hTrim =>
      rw [steps, dif_neg hCells]
      dsimp only
      rw [if_pos hTrim]
      simp only [Bool.and_eq_true] at hTrim
      rw [wordsOf, dif_neg hCells]
      dsimp only
      rw [if_pos hTrim.1.2]
      apply iff_of_true
      · intro before word after hSplit
        simp at hSplit
      · intro s hMem
        cases hMem
  | case3 w cells hCells spaces after word hTrim ih =>
      have hSpaces := breaks_takeWhile cells
      have hSolid : Solid word := solid_wordOf
      rw [wrapFrom, dif_neg hCells, steps, dif_neg hCells]
      dsimp only
      rw [if_neg hTrim, if_neg hTrim, List.forall_mem_cons, ← ih,
        Wrapping.count_word hSpaces hSolid]
      by_cases hEmpty : word.isEmpty
      · -- Breaks alone are left: no word, and no step after.
        have hNil : word = [] := List.isEmpty_iff.mp hEmpty
        have hAfter : after = [] :=
          List.dropWhile_eq_nil_iff.mpr
            ((wordOf_dropWhile_eq_nil_iff cells).mp hNil)
        have hWords : wordsOf cells = [] := by
          rw [wordsOf, dif_neg hCells]
          dsimp only
          rw [if_pos hEmpty]
        have hRest : wordsOf (after.drop word.length) = [] := by
          rw [hAfter, List.drop_nil, wordsOf, dif_pos rfl]
        rw [hWords, hRest]
        apply iff_of_true
        · intro before mid later hSplit
          simp at hSplit
        · refine ⟨?_, ?_⟩
          · intro hSplits
            rcases hSplits.first with ⟨c, hHead, _⟩
            change word.head? = some c at hHead
            rw [hNil] at hHead
            cases hHead
          · intro before mid later hSplit
            simp at hSplit
      · have hWords :
            wordsOf cells =
              word :: wordsOf (after.drop word.length) := by
          rw [wordsOf, dif_neg hCells]
          dsimp only
          rw [if_neg hEmpty]
        have hCount :=
          @Wrapping.count_word u width w _ _ hSpaces hSolid
        have hOnward :=
          @Wrapping.onward_wrapFrom u width trim
            (w.word u width spaces word)
            (after.drop word.length)
        rw [hWords,
          forall_split_cons
            (p := fun n mid =>
              columns u mid ≤ width →
                Unsplit _ (w.count + n) mid.length)]
        apply and_congr
        · by_cases hFits : columns u word ≤ width
          · rw [Nat.add_zero,
              unsplit_onward hOnward (Nat.le_of_eq hCount.symm),
              Wrapping.unsplit_word hSpaces hSolid hFits]
            exact ⟨fun hWhole => hWhole hFits, fun h _ => h⟩
          · apply iff_of_true
            · intro hLe
              exact absurd hLe hFits
            · intro hSplits
              exact hFits hSplits.fits
        · simp only [Nat.add_assoc]
          rfl

theorem unsplit_concat
    {rows : List Row}
    {row : Row}
    {before count : Nat}
    (hPast :
      before + count ≤ (kept (rows ++ [row]).flatten).length) :
    Unsplit (rows ++ [row]) before count ↔
      Unsplit rows before count := by
  constructor
  · intro hUnsplit k hEnds
    exact hUnsplit k (endsAt_concat.mpr (Or.inl hEnds))
  · intro hUnsplit k hEnds
    rcases endsAt_concat.mp hEnds with hOld | hLast
    · exact hUnsplit k hOld
    · rw [← hLast]
      exact Or.inr hPast

end Tui

------------------------------------------------------------
-- What A Wrap Keeps
------------------------------------------------------------

namespace Tui

variable {u : Unicode} {width : Nat}

/- Trimmed or not, the rows of a wrap lay its cells. -/
theorem drops_wrapCells
    (cells : List Cell)
    (trim : Bool) :
    if trim then Lays (wrapCells u cells width trim) cells
    else
      ∃ earlier done last,
        wrapCells u cells width trim = earlier ++ [last] ∧
          Lays earlier done ∧ cells = done ++ last := by
  rcases
    @laid_wrapFrom u (max width 1) trim .start
      cells [] Laid.start with
    ⟨tail, laid, hTail, hNot, ⟨done, hLays, hLaid⟩, hSplit⟩
  rw [List.nil_append] at hSplit
  unfold wrapCells
  dsimp only
  cases trim with
  | true =>
      have hLast :=
        Lays.single
          (wrapFrom u (max width 1) true .start cells).row hTail
      have hCells := (hLays.append hLast).trimmed
      rw [← List.append_assoc, ← hLaid, ← hSplit] at hCells
      exact hCells
  | false =>
      rw [hNot rfl, List.append_nil] at hSplit
      exact ⟨_, done, _, rfl, hLays, hSplit.trans hLaid⟩

theorem keeps_wrapCells
    (cells : List Cell)
    (trim : Bool) :
    kept (wrapCells u cells width trim).flatten =
      kept cells := by
  have hDrops :=
    @drops_wrapCells u width cells trim
  cases trim with
  | true => exact Lays.kept_flatten hDrops
  | false =>
      rcases hDrops with ⟨earlier, done, last, hRows, hLays, rfl⟩
      rw [hRows, List.flatten_append, kept_append, kept_append,
        hLays.kept_flatten]
      simp

theorem narrow_wrapCells
    (cells : List Cell)
    (trim : Bool) :
    ∀ row ∈ wrapCells u cells width trim,
      Narrow u (max width 1) row := by
  have hMeasured :=
    measured_wrapFrom trim .start cells
      (@Wrapping.Measured.start u (max width 1))
  have hRows :
      ∀ row ∈
        (wrapFrom u (max width 1) trim .start cells).rows ++
          [(wrapFrom u (max width 1) trim .start cells).row],
        Narrow u (max width 1) row := by
    intro row hMem
    rcases List.mem_append.mp hMem with hOld | hLast
    · exact hMeasured.rows row hOld
    · rw [List.mem_singleton.mp hLast]
      exact hMeasured.row
  unfold wrapCells
  dsimp only
  intro row hMem
  cases trim with
  | false => exact hRows row hMem
  | true =>
      rcases List.mem_map.mp hMem with ⟨whole, hWhole, rfl⟩
      exact
        (hRows whole hWhole).of_begun
          (List.rdropWhile_prefix Cell.isBreak whole)

/- A word within the cells is split by the rows before the last. -/
theorem unsplit_wrapCells
    {cells : List Cell}
    {trim : Bool}
    {before count : Nat}
    (hPast : before + count ≤ (kept cells).length) :
    Unsplit (wrapCells u cells width trim) before count ↔
      Unsplit (wrapFrom u (max width 1) trim .start cells).rows
        before count := by
  rcases
    @laid_wrapFrom u (max width 1) trim .start
      cells [] Laid.start with
    ⟨tail, laid, hTail, -, ⟨done, hLays, rfl⟩, hSplit⟩
  have hKept :
      kept
          ((wrapFrom u (max width 1) trim .start cells).rows ++
            [(wrapFrom u (max width 1) trim .start cells).row]
            ).flatten =
        kept cells := by
    have hCells := congrArg kept hSplit
    rw [List.nil_append, kept_append, kept_append,
      kept_eq_nil_iff.mpr hTail, List.append_nil] at hCells
    rw [hCells, List.flatten_append, kept_append,
      hLays.kept_flatten]
    simp
  rw [← hKept] at hPast
  rw [← unsplit_concat hPast]
  unfold wrapCells Unsplit
  dsimp only
  cases trim with
  | false => rfl
  | true =>
      rw [if_pos rfl]
      simp only [endsAt_trimmed]

/-
  A wrap keeps its cells and the width, and it keeps the
  words that fit a row whole but where spaces open the row.
-/
theorem wrapsWell_iff
    (cells : List Cell)
    (trim : Bool)
    (hWidth : 1 ≤ width) :
    WrapsWell u width cells trim
        (wrapCells u cells width trim) ↔
      ∀ s ∈ steps u width trim .start cells,
        ¬ s.Splits u width := by
  have hMax : max width 1 = width := Nat.max_eq_left hWidth
  have hPast
      {before after : List (List Cell)}
      {word : List Cell}
      (hSplit : wordsOf cells = before ++ word :: after) :
      before.flatten.length + word.length ≤
        (kept cells).length := by
    rw [← flatten_wordsOf, hSplit]
    simp only [List.flatten_append, List.flatten_cons,
      List.length_append]
    omega
  rw [← whole_wrapFrom]
  have hCount (n : Nat) : Wrapping.start.count + n = n :=
    Nat.zero_add n
  constructor
  · intro hWell before word after hSplit hFits
    have hWhole := hWell.whole before word after hSplit hFits
    rw [unsplit_wrapCells (hPast hSplit), hMax] at hWhole
    rwa [hCount]
  · intro hWhole
    refine
      { keeps := keeps_wrapCells cells trim
        drops := drops_wrapCells cells trim
        narrow := ?_
        whole := ?_ }
    · have hNarrow :=
        @narrow_wrapCells u width cells trim
      rwa [hMax] at hNarrow
    · intro before word after hSplit hFits
      have hUnsplit := hWhole before word after hSplit hFits
      rw [hCount] at hUnsplit
      rw [unsplit_wrapCells (hPast hSplit), hMax]
      exact hUnsplit

/- Clusters of one character each, a column wide. -/
def plain : Unicode where
  graphemes :=
    { clusters := List.map (fun c => [c])
      flatten_clusters := List.flatMap_singleton'
      nonempty := fun s => by simp }
  strWidth := List.length

def cellsOf
    (text : List Char) : List Cell :=
  text.map
    (fun c => { text := [c], style := .new, sticky := false })

/- The second word goes to a row of its own. -/
theorem wrapsWell_twoWords :
    WrapsWell plain 3 (cellsOf ['a', 'b', ' ', 'c', 'd']) true
      (wrapCells plain (cellsOf ['a', 'b', ' ', 'c', 'd'])
        3 true) := by
  refine (wrapsWell_iff _ _ (by decide)).mpr ?_
  intro s hMem hSplits
  have hSpaces := hSplits.spaces
  have hOpens := hSplits.opens
  simp [steps, cellsOf, Cell.isBreak, wordOf, Cell.isLone,
    Wrapping.start, Wrapping.word, Cell.width, plain] at hMem
  rcases hMem with rfl | rfl
  · cases hSpaces
  · cases hOpens

/- Three spaces of five columns, and a word of three. -/
theorem not_wrapsWell :
    ¬ ∀ (u : Unicode) (cells : List Cell) (width : Nat)
        (trim : Bool), 1 ≤ width →
        WrapsWell u width cells trim
          (wrapCells u cells width trim) := by
  intro hClaim
  let text := cellsOf [' ', ' ', ' ', 'a', 'b', 'c']
  have hWell := hClaim plain text 5 true (by decide)
  have hWords : wordsOf text = [cellsOf ['a', 'b', 'c']] := by
    simp [wordsOf, text, cellsOf, Cell.isBreak, wordOf,
      Cell.isLone]
  have hRows :
      wrapCells plain text 5 true =
        [cellsOf [' ', ' ', ' ', 'a', 'b'], cellsOf ['c']] := by
    simp [wrapCells, wrapFrom, text, cellsOf, Cell.isBreak,
      wordOf, Cell.isLone, Wrapping.start, Wrapping.word,
      Wrapping.space, Wrapping.cluster, Wrapping.push,
      Wrapping.endRow, Cell.width, plain, List.rdropWhile]
  have hWhole :=
    hWell.whole [] _ [] hWords (by decide) 2
      ⟨[cellsOf [' ', ' ', ' ', 'a', 'b']], [cellsOf ['c']],
        hRows, by decide⟩
  revert hWhole
  decide

end Tui
