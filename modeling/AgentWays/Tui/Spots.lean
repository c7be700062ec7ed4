import AgentWays.Tui.LaidRows

/-
  Where a wrap puts a cell: the rows that end before it, and
  the cells before it on its row.

  The cells of a line are read one by one. A word is put only
  once it has ended: until then it may move to the next row.

  Key definitions include:
    * `Tui.Reading`
    * `Tui.Reading.spot`
    * `Tui.Wrapping.Later`

  Main declarations:
    * `Tui.Reading.wrapFrom_eq_foldl`
    * `Tui.Reading.later_spot`
    * `Tui.Reading.laid_spot`
-/

------------------------------------------------------------
-- Cells Of A Word
------------------------------------------------------------

namespace Tui

namespace Cell

/- A cell that others may join in a word. -/
def isLetter
    (c : Cell) : Bool :=
  !c.isBreak && !c.isLone

theorem isLetter_iff
    {c : Cell} :
    c.isLetter = true ↔ c.text ≠ [' '] := by
  unfold isLetter isBreak isLone
  cases c.sticky <;> simp

theorem isBreak_of_isLetter
    {c : Cell}
    (hLetter : c.isLetter = true) :
    c.isBreak = false := by
  unfold isLetter at hLetter
  simp_all

theorem isLone_of_isLetter
    {c : Cell}
    (hLetter : c.isLetter = true) :
    c.isLone = false := by
  unfold isLetter at hLetter
  simp_all

theorem isBreak_of_isLone
    {c : Cell}
    (hLone : c.isLone = true) :
    c.isBreak = false := by
  unfold isLone at hLone
  unfold isBreak
  simp_all

end Cell

/- Cells of one word. -/
def Letters
    (cells : List Cell) : Prop :=
  ∀ c ∈ cells, c.isLetter = true

/- No cell that the word before it would take. -/
def Stops
    (cells : List Cell) : Prop :=
  ∀ c ∈ cells.head?, c.isLetter = false

theorem letters_nil :
    Letters [] := by
  intro c hMem
  cases hMem

theorem Letters.concat
    {cells : List Cell}
    {c : Cell}
    (hLetters : Letters cells)
    (hC : c.isLetter = true) :
    Letters (cells ++ [c]) := by
  intro x hMem
  rcases List.mem_append.mp hMem with hOld | hNew
  · exact hLetters x hOld
  · rw [List.mem_singleton.mp hNew]
    exact hC

theorem letters_takeWhile
    (cells : List Cell) :
    Letters (cells.takeWhile Cell.isLetter) :=
  fun _ hMem => List.mem_takeWhile_imp hMem

theorem stops_dropWhile
    (cells : List Cell) :
    Stops (cells.dropWhile Cell.isLetter) := by
  intro c hMem
  have hNot := List.head?_dropWhile_not Cell.isLetter cells
  rw [Option.mem_def.mp hMem] at hNot
  simpa using hNot

theorem takeWhile_of_letters
    {cells rest : List Cell}
    (hLetters : Letters cells)
    (hStops : Stops rest) :
    (cells ++ rest).takeWhile Cell.isLetter = cells := by
  rw [List.takeWhile_append_of_pos hLetters]
  cases rest with
  | nil => simp
  | cons c more =>
      have hNot := hStops c rfl
      rw [List.takeWhile_cons_of_neg (by simp [hNot]),
        List.append_nil]

/- A whole word is the next one. -/
theorem wordOf_of_letters
    {cells rest : List Cell}
    (hSome : cells ≠ [])
    (hLetters : Letters cells)
    (hStops : Stops rest) :
    wordOf (cells ++ rest) = cells := by
  cases cells with
  | nil => exact absurd rfl hSome
  | cons c more =>
      have hC := hLetters c List.mem_cons_self
      have hMore : Letters more :=
        fun x hMem => hLetters x (List.mem_cons_of_mem c hMem)
      rw [List.cons_append, wordOf,
        if_neg (by simp [Cell.isBreak_of_isLetter hC]),
        if_neg (by simp [Cell.isLone_of_isLetter hC])]
      exact congrArg _ (takeWhile_of_letters hMore hStops)

theorem wordOf_of_isLone
    {c : Cell}
    (rest : List Cell)
    (hLone : c.isLone = true) :
    wordOf (c :: rest) = [c] := by
  rw [wordOf, if_neg (by simp [Cell.isBreak_of_isLone hLone]),
    if_pos hLone]

end Tui

------------------------------------------------------------
-- Reading A Line
------------------------------------------------------------

namespace Tui

variable (u : Unicode) (width : Nat)

/- The rows so far, with the spaces and the word not yet put. -/
structure Reading where
  put : Wrapping
  spaces : List Cell
  word : List Cell

namespace Reading

def start : Reading where
  put := .start
  spaces := []
  word := []

/- The word put, where there is one. -/
def settled
    (r : Reading) : Reading :=
  if r.word = [] then r
  else
    { put := r.put.word u width r.spaces r.word
      spaces := []
      word := [] }

/- A cell read: a break, a lone space or a word's cell. -/
def step
    (r : Reading)
    (c : Cell) : Reading :=
  if c.isLetter then { r with word := r.word ++ [c] }
  else
    let r := r.settled u width
    if c.isBreak then { r with spaces := r.spaces ++ [c] }
    else
      { put := r.put.word u width r.spaces [c]
        spaces := []
        word := [] }

def finish
    (r : Reading) : Wrapping :=
  if r.spaces = [] ∧ r.word = [] then r.put
  else r.put.word u width r.spaces r.word

end Reading

variable {u width}

/- The next word of the cells, put after its spaces. -/
theorem wrapFrom_word
    (w : Wrapping)
    {spaces word rest : List Cell}
    (hSpaces : Breaks spaces)
    (hWord : wordOf (word ++ rest) = word)
    (hSome : word ≠ []) :
    wrapFrom u width false w (spaces ++ (word ++ rest)) =
      wrapFrom u width false (w.word u width spaces word)
        rest := by
  have hNonempty : spaces ++ (word ++ rest) ≠ [] := by
    simp [hSome]
  rcases List.exists_cons_of_ne_nil hSome with ⟨c, more, rfl⟩
  have hC : c.isBreak = false := by
    by_contra hBreak
    rw [List.cons_append, wordOf, if_pos (by simpa using hBreak)]
      at hWord
    cases hWord
  have hTake :
      (spaces ++ (c :: more ++ rest)).takeWhile Cell.isBreak =
        spaces := by
    rw [List.takeWhile_append_of_pos hSpaces, List.cons_append,
      List.takeWhile_cons_of_neg (by simp [hC]),
      List.append_nil]
  have hDrop :
      (spaces ++ (c :: more ++ rest)).dropWhile Cell.isBreak =
        c :: more ++ rest := by
    rw [List.dropWhile_append_of_pos hSpaces, List.cons_append,
      List.dropWhile_cons_of_neg (by simp [hC])]
  rw [wrapFrom, dif_neg hNonempty]
  simp only [Bool.false_and, Bool.false_eq_true, if_false]
  rw [hTake, hDrop, hWord, List.drop_left]

/- Breaks that end a line are put after its last word. -/
theorem wrapFrom_spaces
    (w : Wrapping)
    {spaces : List Cell}
    (hSpaces : Breaks spaces)
    (hSome : spaces ≠ []) :
    wrapFrom u width false w spaces =
      w.word u width spaces [] := by
  have hDrop : spaces.dropWhile Cell.isBreak = [] :=
    List.dropWhile_eq_nil_iff.mpr hSpaces
  have hTake : spaces.takeWhile Cell.isBreak = spaces := by
    have hBoth :=
      @List.takeWhile_append_dropWhile _ Cell.isBreak spaces
    rwa [hDrop, List.append_nil] at hBoth
  rw [wrapFrom, dif_neg hSome]
  simp only [Bool.false_and, Bool.false_eq_true, if_false]
  rw [hTake, hDrop, List.drop_nil, wrapFrom, dif_pos rfl]
  rfl

namespace Reading

variable {r : Reading} {rest : List Cell}

theorem word_settled
    (r : Reading) :
    (r.settled u width).word = [] := by
  unfold settled
  split
  · rename_i hNil
    exact hNil
  · rfl

theorem settled_of_nil
    (hNone : r.word = []) :
    r.settled u width = r := by
  unfold settled
  exact if_pos hNone

/- A word ends where a cell comes that it does not take. -/
theorem wrapFrom_settled
    (hSpaces : Breaks r.spaces)
    (hWord : Letters r.word)
    (hStops : Stops rest) :
    wrapFrom u width false r.put
        (r.spaces ++ (r.word ++ rest)) =
      wrapFrom u width false (r.settled u width).put
        ((r.settled u width).spaces ++ rest) := by
  unfold settled
  split
  · rename_i hNil
    rw [hNil, List.nil_append]
  · rename_i hSome
    rw [wrapFrom_word r.put hSpaces
      (wordOf_of_letters hSome hWord hStops) hSome]
    rfl

theorem breaks_settled
    (hSpaces : Breaks r.spaces) :
    Breaks (r.settled u width).spaces := by
  unfold settled
  split
  · exact hSpaces
  · exact breaks_nil

/- A wrap reads the cells one by one. -/
theorem wrapFrom_eq_foldl
    (hSpaces : Breaks r.spaces)
    (hWord : Letters r.word) :
    wrapFrom u width false r.put
        (r.spaces ++ (r.word ++ rest)) =
      (rest.foldl (step u width) r).finish u width := by
  induction rest generalizing r with
  | nil =>
      rw [List.append_nil, List.foldl_nil, finish]
      by_cases hNone : r.word = []
      · rw [hNone, List.append_nil]
        by_cases hNil : r.spaces = []
        · rw [if_pos ⟨hNil, rfl⟩, hNil, wrapFrom, dif_pos rfl]
        · rw [if_neg (fun hBoth => hNil hBoth.1)]
          exact wrapFrom_spaces r.put hSpaces hNil
      · have hWhole :=
          @wordOf_of_letters _ [] hNone hWord (by simp [Stops])
        rw [if_neg (fun hBoth => hNone hBoth.2)]
        have hPut :=
          @wrapFrom_word u width r.put _ _ _ hSpaces hWhole hNone
        rw [List.append_nil] at hPut
        rw [hPut, wrapFrom, dif_pos rfl]
  | cons c rest ih =>
      rw [List.foldl_cons]
      by_cases hLetter : c.isLetter = true
      · have hStep :
            step u width r c =
              { r with word := r.word ++ [c] } := by
          rw [step, if_pos hLetter]
        have hRead :=
          @ih { r with word := r.word ++ [c] } hSpaces
            (hWord.concat hLetter)
        rw [hStep, ← hRead, List.append_assoc]
        rfl
      · have hStops : Stops (c :: rest) := by
          intro x hHead
          cases hHead
          simpa using hLetter
        have hSettled := @breaks_settled u width r hSpaces
        rw [wrapFrom_settled hSpaces hWord hStops, step,
          if_neg hLetter]
        by_cases hBreak : c.isBreak = true
        · have hMore :
              Breaks ((r.settled u width).spaces ++ [c]) := by
            apply hSettled.append
            intro x hMem
            rw [List.mem_singleton.mp hMem]
            exact hBreak
          dsimp only
          rw [if_pos hBreak, ← ih hMore (by
            rw [word_settled]
            exact letters_nil)]
          rw [word_settled, List.nil_append, List.append_assoc]
          rfl
        · have hLone : c.isLone = true := by
            simpa [Cell.isLetter, hBreak] using hLetter
          have hPut :=
            @wrapFrom_word u width (r.settled u width).put _ [c]
              rest hSettled (wordOf_of_isLone rest hLone)
              (List.cons_ne_nil c [])
          dsimp only
          rw [if_neg hBreak, ← ih breaks_nil letters_nil]
          exact hPut

end Reading

/- A line wrapped from its first cell. -/
theorem wrapFrom_start
    (cells : List Cell) :
    wrapFrom u width false .start cells =
      (cells.foldl (Reading.step u width) .start).finish
        u width :=
  @Reading.wrapFrom_eq_foldl u width .start cells breaks_nil
    letters_nil

end Tui

------------------------------------------------------------
-- Rows That Have Begun
------------------------------------------------------------

namespace Tui

variable (u : Unicode) (width : Nat)

namespace Wrapping

/- The row that a word's cell goes to. -/
def room
    (w : Wrapping)
    (c : Cell) : Wrapping :=
  if w.used + c.width u > width ∧ w.used > 0 then w.endRow
  else w

/- Where a word starts, its spaces put or left out. -/
def opened
    (w : Wrapping)
    (spaces word : List Cell) : Wrapping :=
  if w.used + columns u spaces + columns u word ≤ width then
    spaces.foldl (push u) w
  else if w.used > 0 then w.endRow
  else spaces.foldl (space u width) w

variable {u width} {w w' w'' : Wrapping}

theorem cluster_eq
    (w : Wrapping)
    (c : Cell) :
    cluster u width w c = (w.room u width c).push u c := by
  unfold cluster room
  split <;> rfl

theorem foldl_push
    (w : Wrapping)
    (cells : List Cell) :
    cells.foldl (push u) w =
      { rows := w.rows
        row := w.row ++ cells
        used := w.used + columns u cells } := by
  induction cells generalizing w with
  | nil => simp
  | cons c rest ih =>
      rw [List.foldl_cons, ih, columns_cons]
      simp [push, Nat.add_assoc]

theorem foldl_cluster_of_fits
    (w : Wrapping)
    {cells : List Cell}
    (hFits : w.used + columns u cells ≤ width) :
    cells.foldl (cluster u width) w =
      cells.foldl (push u) w := by
  induction cells generalizing w with
  | nil => rfl
  | cons c rest ih =>
      rw [columns_cons] at hFits
      have hC : cluster u width w c = w.push u c := by
        unfold cluster
        exact if_neg (by omega)
      rw [List.foldl_cons, List.foldl_cons, hC]
      apply ih
      show w.used + c.width u + columns u rest ≤ width
      omega

theorem foldl_space_of_fits
    (w : Wrapping)
    {cells : List Cell}
    (hFits : w.used + columns u cells ≤ width) :
    cells.foldl (space u width) w =
      cells.foldl (push u) w := by
  induction cells generalizing w with
  | nil => rfl
  | cons c rest ih =>
      rw [columns_cons] at hFits
      have hC : space u width w c = w.push u c := by
        unfold space
        exact if_neg (by omega)
      rw [List.foldl_cons, List.foldl_cons, hC]
      apply ih
      show w.used + c.width u + columns u rest ≤ width
      omega

/- A word is put cell by cell from where it starts. -/
theorem word_eq
    (w : Wrapping)
    (spaces word : List Cell) :
    w.word u width spaces word =
      word.foldl (cluster u width)
        (w.opened u width spaces word) := by
  unfold Wrapping.word opened
  by_cases hFits :
      w.used + columns u spaces + columns u word ≤ width
  · have hWord :
        (spaces.foldl (push u) w).used + columns u word ≤
          width := by
      rw [foldl_push]
      exact hFits
    rw [if_pos hFits, foldl_cluster_of_fits _ hWord, foldl_push,
      foldl_push]
    refine (if_pos hFits).trans ?_
    rw [Nat.add_assoc]
    rfl
  · rw [if_neg hFits]
    exact if_neg hFits

/- Rows that have ended stay, and the row begun goes on. -/
def Later
    (w w' : Wrapping) : Prop :=
  ∃ more later,
    w'.rows ++ [w'.row] = w.rows ++ (w.row ++ more) :: later

namespace Later

theorem refl
    (w : Wrapping) :
    Later w w :=
  ⟨[], [], by rw [List.append_nil]⟩

theorem trans
    (hLater : Later w w')
    (hLater' : Later w' w'') :
    Later w w'' := by
  rcases hLater with ⟨more, later, hRows⟩
  rcases hLater' with ⟨more', later', hRows'⟩
  unfold Later
  rw [hRows']
  rcases List.eq_nil_or_concat later with rfl | ⟨rest, last, rfl⟩
  · -- the row is still being filled
    rcases List.append_inj' hRows rfl with ⟨hDone, hRow⟩
    rw [hDone, List.singleton_inj.mp hRow, List.append_assoc]
    exact ⟨more ++ more', later', rfl⟩
  · rw [List.concat_eq_append, ← List.cons_append,
      ← List.append_assoc] at hRows
    have hDone := (List.append_inj' hRows rfl).1
    rw [hDone, List.append_assoc, List.cons_append]
    exact ⟨more, rest ++ (w'.row ++ more') :: later', rfl⟩

theorem endRow
    (w : Wrapping) :
    Later w w.endRow :=
  ⟨[], [[]], by simp [Wrapping.endRow]⟩

theorem push
    (w : Wrapping)
    (c : Cell) :
    Later w (w.push u c) :=
  ⟨[c], [], rfl⟩

theorem endRow_push
    (w : Wrapping)
    (c : Cell) :
    Later w (w.endRow.push u c) :=
  (endRow w).trans (push w.endRow c)

theorem space
    (w : Wrapping)
    (c : Cell) :
    Later w (Wrapping.space u width w c) := by
  unfold Wrapping.space
  split
  · exact endRow_push w c
  · exact push w c

theorem cluster
    (w : Wrapping)
    (c : Cell) :
    Later w (Wrapping.cluster u width w c) := by
  unfold Wrapping.cluster
  split
  · exact endRow_push w c
  · exact push w c

theorem foldl
    {step : Wrapping → Cell → Wrapping}
    (hStep : ∀ w c, Later w (step w c))
    (w : Wrapping)
    (cells : List Cell) :
    Later w (cells.foldl step w) := by
  induction cells generalizing w with
  | nil => exact refl w
  | cons c rest ih => exact (hStep w c).trans (ih (step w c))

theorem word
    (w : Wrapping)
    (spaces cells : List Cell) :
    Later w (w.word u width spaces cells) := by
  rw [word_eq]
  refine Later.trans ?_ (foldl cluster _ cells)
  unfold opened
  split
  · exact foldl push w spaces
  · split
    · exact endRow w
    · exact foldl space w spaces

end Later

end Wrapping

open Wrapping

namespace Reading

variable {u width} {r : Reading} {rest : List Cell}

theorem later_settled
    (r : Reading) :
    Later r.put (r.settled u width).put := by
  unfold settled
  split
  · exact Later.refl r.put
  · exact Later.word r.put r.spaces r.word

theorem later_step
    (r : Reading)
    (c : Cell) :
    Later r.put (r.step u width c).put := by
  unfold step
  split
  · exact Later.refl r.put
  · dsimp only
    split
    · exact later_settled r
    · exact (later_settled r).trans (Later.word _ _ [c])

theorem later_finish
    (r : Reading) :
    Later r.put (r.finish u width) := by
  unfold finish
  split
  · exact Later.refl r.put
  · exact Later.word r.put r.spaces r.word

theorem later_foldl
    (r : Reading)
    (rest : List Cell) :
    Later r.put
      ((rest.foldl (step u width) r).finish u width) := by
  induction rest generalizing r with
  | nil => exact later_finish r
  | cons c rest ih =>
      exact (later_step r c).trans (ih (r.step u width c))

/- A word that has ended is put before what comes after. -/
theorem later_of_stops
    (hSome : r.word ≠ [])
    (hStops : Stops rest) :
    Later (r.put.word u width r.spaces r.word)
      ((rest.foldl (step u width) r).finish u width) := by
  cases rest with
  | nil =>
      rw [List.foldl_nil, finish,
        if_neg (fun hBoth => hSome hBoth.2)]
      exact Later.refl _
  | cons c rest =>
      have hPut :
          (r.settled u width).put =
            r.put.word u width r.spaces r.word := by
        rw [settled, if_neg hSome]
      have hC := hStops c rfl
      rw [List.foldl_cons, ← hPut]
      refine Later.trans ?_ (later_foldl (r.step u width c) rest)
      rw [step, if_neg (by simp [hC])]
      dsimp only
      split
      · exact Later.refl _
      · exact Later.word _ _ [c]

theorem foldl_step_of_letters
    (r : Reading)
    {cells : List Cell}
    (hLetters : Letters cells) :
    cells.foldl (step u width) r =
      { r with word := r.word ++ cells } := by
  induction cells generalizing r with
  | nil => simp
  | cons c rest ih =>
      have hC := hLetters c List.mem_cons_self
      rw [List.foldl_cons,
        ih _ (fun x hMem =>
          hLetters x (List.mem_cons_of_mem c hMem)),
        step, if_pos hC]
      simp

end Reading

end Tui

------------------------------------------------------------
-- Where A Cell Is Put
------------------------------------------------------------

namespace Tui

open Wrapping

namespace Reading

/- The rows a cell is put on, with more of its line to come. -/
def spot
    (u : Unicode)
    (width : Nat)
    (r : Reading)
    (c : Cell)
    (rest : List Cell) : Wrapping :=
  if c.isLetter then
    (r.word.foldl (cluster u width)
      (r.put.opened u width r.spaces
        (r.word ++ c :: rest.takeWhile Cell.isLetter))).room
      u width c
  else
    let r := r.settled u width
    (r.put.opened u width r.spaces [c]).room u width c

variable {u : Unicode} {width : Nat} {r : Reading} {c : Cell}

/- A cell is on the row that its spot has begun. -/
theorem later_spot
    (r : Reading)
    (rest : List Cell)
    (hBreak : c.isBreak = false) :
    Later ((r.spot u width c rest).push u c)
      (((c :: rest).foldl (step u width) r).finish u width) := by
  by_cases hLetter : c.isLetter = true
  · let more := rest.takeWhile Cell.isLetter
    have hMore : Letters more := letters_takeWhile rest
    have hStops := stops_dropWhile rest
    have hRead :
        (c :: rest).foldl (step u width) r =
          (rest.dropWhile Cell.isLetter).foldl (step u width)
            { r with word := r.word ++ c :: more } := by
      conv_lhs =>
        rw [← List.takeWhile_append_dropWhile
          (p := Cell.isLetter) (l := rest)]
      rw [List.foldl_cons, List.foldl_append,
        foldl_step_of_letters _ hMore, step, if_pos hLetter]
      simp [more]
    have hPut :=
      @later_of_stops u width
        { r with word := r.word ++ c :: more } _
        (by simp) hStops
    rw [hRead]
    refine Later.trans ?_ hPut
    rw [word_eq, List.foldl_append, List.foldl_cons,
      cluster_eq, spot, if_pos hLetter]
    exact Later.foldl Later.cluster _ more
  · have hPut :
        (step u width r c).put =
          (r.spot u width c rest).push u c := by
      rw [step, if_neg hLetter, spot, if_neg hLetter]
      dsimp only
      rw [if_neg (by simp [hBreak]), word_eq, List.foldl_cons,
        List.foldl_nil, cluster_eq]
    rw [List.foldl_cons, ← hPut]
    exact later_foldl _ rest

end Reading

end Tui

------------------------------------------------------------
-- What Lies Before A Spot
------------------------------------------------------------

namespace Tui

variable {u : Unicode} {width : Nat}

namespace Wrapping

variable {w : Wrapping} {cells spaces : List Cell}

theorem laid_room
    (hLaid : Laid w cells)
    (c : Cell) :
    Laid (w.room u width c) cells := by
  unfold room
  split
  · have hEnd := hLaid.endRow breaks_nil
    rwa [List.append_nil] at hEnd
  · exact hLaid

theorem laid_opened
    (hLaid : Laid w cells)
    (hSpaces : Breaks spaces)
    (word : List Cell) :
    Laid (w.opened u width spaces word) (cells ++ spaces) := by
  unfold opened
  split
  · exact
      Laid.foldl (fun w cells c hLaid => hLaid.push c) hLaid
        spaces
  · split
    · exact hLaid.endRow hSpaces
    · exact
        Laid.foldl (fun w cells c hLaid => hLaid.space c) hLaid
          spaces

theorem measured_room
    (hMeasured : w.Measured u width)
    (c : Cell) :
    (w.room u width c).Measured u width := by
  unfold room
  split
  · exact hMeasured.endRow
  · exact hMeasured

theorem measured_opened
    (hMeasured : w.Measured u width)
    (spaces word : List Cell) :
    (w.opened u width spaces word).Measured u width := by
  have hSpaces :=
    Measured.foldl
      (fun w c (hMeasured : w.Measured u width) =>
        hMeasured.space c)
      hMeasured spaces
  unfold opened
  split
  · rename_i hFits
    have hPut : w.used + columns u spaces ≤ width := by omega
    rw [← foldl_space_of_fits w hPut]
    exact hSpaces
  · split
    · exact hMeasured.endRow
    · exact hSpaces

end Wrapping

open Wrapping

namespace Reading

/- The cells read: those put, the spaces and the word. -/
structure Holds
    (u : Unicode)
    (width : Nat)
    (r : Reading)
    (cells : List Cell) : Prop where
  spaces : Breaks r.spaces
  word : Letters r.word
  laid :
    ∃ done, Laid r.put done ∧
      cells = done ++ (r.spaces ++ r.word)
  measured : r.put.Measured u width

namespace Holds

variable {r : Reading} {cells : List Cell}

theorem start :
    Holds u width .start [] where
  spaces := breaks_nil
  word := letters_nil
  laid := ⟨[], Laid.start, rfl⟩
  measured := Measured.start

theorem settled
    (hHolds : Holds u width r cells) :
    Holds u width (r.settled u width) cells := by
  unfold Reading.settled
  split
  · exact hHolds
  · rcases hHolds.laid with ⟨done, hLaid, rfl⟩
    refine
      { spaces := breaks_nil
        word := letters_nil
        laid := ⟨_, hLaid.word hHolds.spaces r.word, ?_⟩
        measured := hHolds.measured.word r.spaces r.word }
    simp

theorem step
    (hHolds : Holds u width r cells)
    (c : Cell) :
    Holds u width (r.step u width c) (cells ++ [c]) := by
  have hSettled := hHolds.settled
  have hNone := @word_settled u width r
  unfold Reading.step
  split
  · rename_i hLetter
    rcases hHolds.laid with ⟨done, hLaid, rfl⟩
    exact
      { spaces := hHolds.spaces
        word := hHolds.word.concat hLetter
        laid := ⟨done, hLaid, by simp⟩
        measured := hHolds.measured }
  · rcases hSettled.laid with ⟨done, hLaid, rfl⟩
    dsimp only
    split
    · rename_i hBreak
      have hC : Breaks [c] := by
        intro x hMem
        rw [List.mem_singleton.mp hMem]
        exact hBreak
      exact
        { spaces := hSettled.spaces.append hC
          word := hSettled.word
          laid := ⟨done, hLaid, by simp [hNone]⟩
          measured := hSettled.measured }
    · exact
        { spaces := breaks_nil
          word := letters_nil
          laid :=
            ⟨_, hLaid.word hSettled.spaces [c],
              by simp [hNone]⟩
          measured := hSettled.measured.word _ [c] }

/- What holds of every beginning of a line. -/
theorem foldl
    (hHolds : Holds u width r cells)
    (more : List Cell) :
    Holds u width (more.foldl (Reading.step u width) r)
      (cells ++ more) := by
  induction more generalizing r cells with
  | nil => rwa [List.append_nil]
  | cons c rest ih =>
      have hRest := ih (hHolds.step c)
      rw [List.append_assoc] at hRest
      exact hRest

theorem laid_spot
    (hHolds : Holds u width r cells)
    (c : Cell)
    (rest : List Cell) :
    Laid (r.spot u width c rest) cells := by
  unfold spot
  split
  · rcases hHolds.laid with ⟨done, hLaid, rfl⟩
    rw [← List.append_assoc]
    apply laid_room
    exact
      Laid.foldl (fun w cells c hLaid => hLaid.cluster c)
        (laid_opened hLaid hHolds.spaces _) r.word
  · have hSettled := hHolds.settled
    rcases hSettled.laid with ⟨done, hLaid, rfl⟩
    rw [word_settled, List.append_nil]
    exact laid_room (laid_opened hLaid hSettled.spaces [c]) c

theorem measured_spot
    (hHolds : Holds u width r cells)
    (c : Cell)
    (rest : List Cell) :
    (r.spot u width c rest).Measured u width := by
  unfold spot
  split
  · apply measured_room
    exact
      Measured.foldl
        (fun w c (hMeasured : w.Measured u width) =>
          hMeasured.cluster c)
        (measured_opened hHolds.measured _ _) r.word
  · exact
      measured_room
        (measured_opened hHolds.settled.measured _ [c]) c

end Holds

end Reading

/- A line read from its first cell on. -/
theorem holds_line
    (u : Unicode)
    (width : Nat)
    (cells : List Cell) :
    Reading.Holds u width
      (cells.foldl (Reading.step u width) .start) cells :=
  Reading.Holds.start.foldl cells

end Tui

------------------------------------------------------------
-- From A Spot To The Next
------------------------------------------------------------

namespace Tui

variable {u : Unicode} {width : Nat}

namespace Wrapping

variable {w : Wrapping} {spaces word : List Cell} {c : Cell}

theorem room_of_empty
    (hNone : w.used = 0)
    (c : Cell) :
    w.room u width c = w := by
  unfold room
  exact if_neg (by omega)

theorem room_of_fits
    (hFits : w.used + c.width u ≤ width) :
    w.room u width c = w := by
  unfold room
  exact if_neg (by omega)

theorem room_endRow
    (w : Wrapping)
    (c : Cell) :
    w.endRow.room u width c = w.endRow :=
  room_of_empty rfl c

theorem opened_of_fits
    (hFits :
      w.used + columns u spaces + columns u word ≤ width) :
    w.opened u width spaces word = spaces.foldl (push u) w := by
  unfold opened
  exact if_pos hFits

theorem opened_of_wider
    (hWider :
      ¬ w.used + columns u spaces + columns u word ≤ width)
    (hUsed : w.used > 0) :
    w.opened u width spaces word = w.endRow := by
  unfold opened
  rw [if_neg hWider, if_pos hUsed]

/- On a row with nothing on it the spaces are always put. -/
theorem opened_of_empty
    (hNone : w.used = 0)
    (spaces word : List Cell) :
    w.opened u width spaces word =
      spaces.foldl (space u width) w := by
  unfold opened
  split
  · rename_i hFits
    have hPut : w.used + columns u spaces ≤ width := by omega
    exact (foldl_space_of_fits w hPut).symm
  · rw [if_neg (by omega)]

/- Where a word starts depends on its columns alone. -/
theorem opened_congr
    {word' : List Cell}
    (hColumns : columns u word = columns u word') :
    w.opened u width spaces word =
      w.opened u width spaces word' := by
  unfold opened
  rw [hColumns]

theorem room_congr
    {c' : Cell}
    (hWidth : c.width u = c'.width u) :
    w.room u width c = w.room u width c' := by
  unfold room
  rw [hWidth]

/- With no spaces before it a cell needs its own columns. -/
theorem room_opened_nil
    (w : Wrapping)
    (c : Cell) :
    (w.opened u width [] [c]).room u width c =
      w.room u width c := by
  unfold opened
  rw [columns_cons, columns_nil, List.foldl_nil,
    List.foldl_nil]
  by_cases hFits : w.used + 0 + (c.width u + 0) ≤ width
  · rw [if_pos hFits]
  · rw [if_neg hFits]
    by_cases hUsed : w.used > 0
    · rw [if_pos hUsed, room_endRow, room,
        if_pos ⟨by omega, hUsed⟩]
    · rw [if_neg hUsed]

/- The next spot: after the cell, below it, or where it was. -/
inductive Moves
    (c : Cell)
    (w w' : Wrapping) : Prop
| on
    (hRows : w'.rows.length = w.rows.length)
    (hRow : w'.row = w.row ++ [c])
| down
    (hRows : w'.rows.length = w.rows.length + 1)
    (hRow : w'.row = [])
| stays
    (hRows : w'.rows.length = w.rows.length)
    (hBefore : w.row = [])
    (hRow : w'.row = [])

theorem moves_room
    (w : Wrapping)
    (c next : Cell) :
    Moves c w ((w.push u c).room u width next) := by
  unfold room
  split
  · exact Moves.down (by simp [endRow, push]) rfl
  · exact Moves.on rfl rfl

/- Past a space that is a break for the next word. -/
theorem moves_opened
    {mark next : Cell}
    (hC : c.width u = 1)
    (hMark : mark.width u = 1)
    (hWidth : 1 ≤ width)
    (w : Wrapping)
    (spaces more : List Cell) :
    Moves c
      ((w.opened u width spaces [mark]).room u width mark)
      ((w.opened u width (spaces ++ [c]) (next :: more)).room
        u width next) := by
  have hOne : columns u [mark] = 1 := by
    rw [columns_cons, columns_nil, hMark]
  have hSpaces :
      columns u (spaces ++ [c]) = columns u spaces + 1 := by
    rw [columns_append, columns_cons, columns_nil, hC]
  by_cases hUsed : w.used > 0
  · by_cases hFits :
        w.used + columns u (spaces ++ [c]) +
          columns u (next :: more) ≤ width
    · -- the spaces and the next word are on this row
      have hNext :
          ((spaces ++ [c]).foldl (push u) w).used +
            next.width u ≤ width := by
        rw [foldl_push]
        rw [columns_cons] at hFits
        dsimp only
        omega
      have hHere :
          (spaces.foldl (push u) w).used + mark.width u ≤
            width := by
        rw [foldl_push, hMark]
        dsimp only
        omega
      rw [opened_of_fits hFits, room_of_fits hNext,
        opened_of_fits (by omega), room_of_fits hHere,
        foldl_push, foldl_push]
      exact Moves.on rfl (by simp)
    · rw [opened_of_wider hFits hUsed, room_endRow]
      by_cases hMarkFits :
          w.used + columns u spaces + columns u [mark] ≤ width
      · have hHere :
            (spaces.foldl (push u) w).used + mark.width u ≤
              width := by
          rw [foldl_push, hMark, ← hOne]
          exact hMarkFits
        rw [opened_of_fits hMarkFits, room_of_fits hHere,
          foldl_push]
        exact Moves.down (by simp [endRow]) rfl
      · rw [opened_of_wider hMarkFits hUsed, room_endRow]
        exact Moves.stays rfl rfl rfl
  · -- the spaces open the row, and stay on it
    have hNone : w.used = 0 := by omega
    rw [opened_of_empty hNone, opened_of_empty hNone,
      List.foldl_append, List.foldl_cons, List.foldl_nil]
    generalize spaces.foldl (space u width) w = v
    have hSpace :
        space u width v c = (v.room u width mark).push u c := by
      unfold space room
      rw [hC, hMark]
      by_cases hOver : v.used + 1 > width
      · rw [if_pos hOver, if_pos ⟨hOver, by omega⟩]
      · rw [if_neg hOver, if_neg (fun hBoth => hOver hBoth.1)]
    rw [hSpace]
    exact moves_room _ c next

end Wrapping

end Tui

------------------------------------------------------------
-- The Spots Of A Line
------------------------------------------------------------

namespace Tui

open Wrapping

/- The cell under the cursor, or the one past the line's end. -/
def shown
    (style : Style)
    (rest : List Cell) : Cell where
  text := rest.head?.elim [' '] Cell.text
  style := style
  sticky := true

/- Where the cursor is put, before the cells that are left. -/
def Reading.cursorSpot
    (u : Unicode)
    (width : Nat)
    (style : Style)
    (r : Reading)
    (rest : List Cell) : Wrapping :=
  r.spot u width (shown style rest) rest.tail

variable {u : Unicode} {width : Nat} {style : Style}
variable {r : Reading} {cells rest : List Cell} {c : Cell}

@[simp] theorem width_shown
    (style : Style)
    (c : Cell)
    (rest : List Cell) :
    (shown style (c :: rest)).width u = c.width u :=
  rfl

theorem isBreak_shown
    (style : Style)
    (rest : List Cell) :
    (shown style rest).isBreak = false :=
  rfl

theorem isLetter_shown
    (style : Style)
    (c : Cell)
    (rest : List Cell) :
    (shown style (c :: rest)).isLetter = c.isLetter := by
  rw [Bool.eq_iff_iff, Cell.isLetter_iff, Cell.isLetter_iff]
  rfl

theorem isLetter_shown_nil
    (style : Style) :
    (shown style []).isLetter = false := by
  rw [Bool.eq_false_iff, ne_eq, Cell.isLetter_iff]
  simp [shown]

namespace Reading

theorem spot_of_isLetter
    (r : Reading)
    (rest : List Cell)
    (hLetter : c.isLetter = true) :
    r.spot u width c rest =
      (r.word.foldl (cluster u width)
        (r.put.opened u width r.spaces
          (r.word ++ c :: rest.takeWhile Cell.isLetter))).room
        u width c := by
  unfold spot
  exact if_pos hLetter

theorem spot_of_not_isLetter
    (r : Reading)
    (rest : List Cell)
    (hLetter : ¬ c.isLetter = true) :
    r.spot u width c rest =
      ((r.settled u width).put.opened u width
        (r.settled u width).spaces [c]).room u width c := by
  unfold spot
  exact if_neg hLetter

/- A spot depends on the cell's text alone. -/
theorem spot_congr
    {c' : Cell}
    (hText : c.text = c'.text) :
    r.spot u width c rest = r.spot u width c' rest := by
  have hWidth : c.width u = c'.width u :=
    congrArg u.strWidth hText
  have hLetter : c.isLetter = c'.isLetter := by
    rw [Bool.eq_iff_iff, Cell.isLetter_iff, Cell.isLetter_iff,
      hText]
  unfold spot
  rw [hLetter]
  by_cases hHere : c'.isLetter = true
  · rw [if_pos hHere, if_pos hHere, room_congr hWidth]
    congr 2
    apply opened_congr
    rw [columns_append, columns_append, columns_cons,
      columns_cons, hWidth]
  · rw [if_neg hHere, if_neg hHere]
    dsimp only
    rw [room_congr hWidth]
    congr 1
    apply opened_congr
    rw [columns_cons, columns_cons, hWidth]

/- Where a line starts is the first place on its first row. -/
theorem cursorSpot_start
    (rest : List Cell) :
    cursorSpot u width style .start rest = .start := by
  unfold cursorSpot spot
  split
  · show room u width (opened u width .start [] _) _ = _
    rw [opened_of_empty rfl, List.foldl_nil, room_of_empty rfl]
  · show room u width (opened u width .start [] _) _ = _
    rw [opened_of_empty rfl, List.foldl_nil, room_of_empty rfl]

/- After a cell of a word comes its place, or the next row. -/
theorem cursorSpot_letter
    (style : Style)
    (r : Reading)
    (rest : List Cell)
    (hLetter : c.isLetter = true) :
    (r.step u width c).cursorSpot u width style rest =
      ((r.cursorSpot u width style (c :: rest)).push u c).room
        u width (shown style rest) := by
  have hHere := (isLetter_shown style c rest).trans hLetter
  have hStep :
      r.step u width c = { r with word := r.word ++ [c] } := by
    rw [step, if_pos hLetter]
  unfold cursorSpot
  rw [hStep, spot_of_isLetter _ _ hHere, List.tail_cons,
    room_congr (width_shown style c rest), ← cluster_eq]
  by_cases hNext : (shown style rest).isLetter = true
  · cases rest with
    | nil =>
        rw [isLetter_shown_nil] at hNext
        cases hNext
    | cons next more =>
        have hMore := (isLetter_shown style next more).symm
        rw [hNext] at hMore
        rw [spot_of_isLetter _ _ hNext, List.foldl_append,
          List.foldl_cons, List.foldl_nil,
          List.takeWhile_cons_of_pos hMore, List.tail_cons]
        congr 3
        apply opened_congr
        simp [columns_append, columns_cons]
  · have hAlone : rest.takeWhile Cell.isLetter = [] := by
      cases rest with
      | nil => rfl
      | cons next more =>
          rw [isLetter_shown] at hNext
          rw [List.takeWhile_cons_of_neg hNext]
    rw [spot_of_not_isLetter _ _ hNext, settled,
      if_neg (by simp)]
    dsimp only
    rw [room_opened_nil, word_eq, List.foldl_append,
      List.foldl_cons, List.foldl_nil, hAlone]
    congr 3
    apply opened_congr
    simp [columns_append, columns_cons]

/- After a break comes its place, the next row, or its own. -/
theorem moves_break
    (style : Style)
    (r : Reading)
    (rest : List Cell)
    (hSpace : u.strWidth [' '] = 1)
    (hWidth : 1 ≤ width)
    (hBreak : c.isBreak = true) :
    Moves c (r.cursorSpot u width style (c :: rest))
      ((r.step u width c).cursorSpot u width style rest) := by
  have hText : c.text = [' '] := by
    simp only [Cell.isBreak, Bool.and_eq_true,
      decide_eq_true_eq] at hBreak
    exact hBreak.2
  have hC : c.width u = 1 := by
    rw [Cell.width, hText, hSpace]
  have hLetter : c.isLetter = false := by
    rw [Bool.eq_false_iff, ne_eq, Cell.isLetter_iff]
    simp [hText]
  have hHere : (shown style (c :: rest)).isLetter = false := by
    rw [isLetter_shown, hLetter]
  have hStep :
      r.step u width c =
        { r.settled u width with
          spaces := (r.settled u width).spaces ++ [c] } := by
    rw [step, if_neg (by simp [hLetter])]
    exact if_pos hBreak
  have hNone := @word_settled u width r
  have hMoves :=
    @moves_opened u width c (shown style (c :: rest))
      (shown style rest) hC hC hWidth
      (r.settled u width).put (r.settled u width).spaces
  unfold cursorSpot
  rw [hStep, spot_of_not_isLetter _ _ (by simp [hHere])]
  dsimp only
  by_cases hNext : (shown style rest).isLetter = true
  · rw [spot_of_isLetter _ _ hNext]
    dsimp only
    rw [hNone, List.foldl_nil]
    exact hMoves _
  · have hSettled :
        settled u width
            { r.settled u width with
              spaces := (r.settled u width).spaces ++ [c] } =
          { r.settled u width with
            spaces := (r.settled u width).spaces ++ [c] } :=
      settled_of_nil hNone
    rw [spot_of_not_isLetter _ _ hNext, hSettled]
    exact hMoves []

/- The end of a line is on its rows, or starts one after them. -/
theorem cursorSpot_nil
    (style : Style)
    (r : Reading)
    (hSpace : u.strWidth [' '] = 1) :
    (r.cursorSpot u width style []).rows.length <
        (r.finish u width).rows.length + 1 ∨
      (r.cursorSpot u width style []).rows.length =
          (r.finish u width).rows.length + 1 ∧
        (r.cursorSpot u width style []).row = [] := by
  have hEnd : (shown style []).width u = 1 := hSpace
  have hOne : columns u [shown style []] = 1 := by
    rw [columns_cons, columns_nil, hEnd]
  unfold cursorSpot
  rw [spot_of_not_isLetter _ _ (by simp [isLetter_shown_nil])]
  by_cases hFinish :
      (r.settled u width).put = r.finish u width ∧
        (r.settled u width).spaces = []
  · -- nothing is left to put: the last row, or one more
    rw [hFinish.1, hFinish.2, room_opened_nil, room]
    split
    · exact Or.inr ⟨by simp [endRow], rfl⟩
    · exact Or.inl (Nat.lt_succ_self _)
  · have hNone : r.word = [] := by
      by_contra hSome
      apply hFinish
      rw [settled, if_neg hSome, finish,
        if_neg (fun hBoth => hSome hBoth.2)]
      exact ⟨rfl, rfl⟩
    rw [settled_of_nil hNone] at hFinish ⊢
    have hSpaces : r.spaces ≠ [] := by
      intro hNil
      apply hFinish
      rw [finish, if_pos ⟨hNil, hNone⟩]
      exact ⟨rfl, hNil⟩
    rw [finish, if_neg (fun hBoth => hSpaces hBoth.1), hNone,
      word_eq, List.foldl_nil]
    by_cases hUsed : r.put.used > 0
    · by_cases hFits :
          r.put.used + columns u r.spaces +
            columns u [shown style []] ≤ width
      · have hHere :
            (r.spaces.foldl (push u) r.put).used +
              (shown style []).width u ≤ width := by
          rw [foldl_push, hEnd, ← hOne]
          exact hFits
        rw [opened_of_fits hFits, room_of_fits hHere,
          opened_of_fits (by rw [columns_nil]; omega)]
        exact Or.inl (Nat.lt_succ_self _)
      · rw [opened_of_wider hFits hUsed, room_endRow]
        by_cases hPut :
            r.put.used + columns u r.spaces +
              columns u [] ≤ width
        · rw [opened_of_fits hPut, foldl_push]
          exact Or.inr ⟨by simp [endRow], rfl⟩
        · rw [opened_of_wider hPut hUsed]
          exact Or.inl (Nat.lt_succ_self _)
    · have hPut : r.put.used = 0 := by omega
      rw [opened_of_empty hPut, opened_of_empty hPut, room]
      split
      · exact Or.inr ⟨by simp [endRow], rfl⟩
      · exact Or.inl (Nat.lt_succ_self _)

end Reading

end Tui
