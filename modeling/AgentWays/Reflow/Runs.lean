import AgentWays.Reflow.FlattenSpec

/-
  The run of a reflow over the lines: each line outside the
  detected units is kept, and each unit becomes one line.

  `reflowFrom_induction` is the run's induction: what holds
  at the end, and is kept by one line and by one unit, holds
  of the whole.

  Key definitions include:
    * `Reflow.unitLine`
    * `Reflow.placed`

  Main declarations:
    * `Reflow.reflowFrom_induction`
    * `Reflow.reflow_placed`
-/

------------------------------------------------------------
-- A Unit's Lines
------------------------------------------------------------

namespace Reflow

open RustText

/- The lines of a unit after its first. -/
def unitRest
    (lines : List Line)
    (w : WrappedParagraph) : List Line :=
  (List.range' (w.start + 1) (w.stop - w.start)).map
    (lineAt lines)

/- The line a unit becomes. -/
def unitLine
    (lines : List Line)
    (w : WrappedParagraph) : Line :=
  flatten (lineAt lines w.start) (unitRest lines w)

/- The quote markers that the join of a unit leaves out. -/
def markers
    (lines : List Line)
    (w : WrappedParagraph) : Nat :=
  if isBlockquote (lineAt lines w.start) then
    ((unitRest lines w).filter isBlockquote).length
  else 0

theorem take_drop_eq_map
    (lines : List Line)
    {i k : Nat}
    (hBound : i + k ≤ lines.length) :
    (lines.drop i).take k =
      (List.range' i k).map (lineAt lines) := by
  apply List.ext_getElem?
  intro j
  rw [List.getElem?_take, List.getElem?_map]
  split
  · rename_i hJ
    rw [List.getElem?_drop, List.getElem?_range' hJ]
    have hLine : i + j < lines.length := by omega
    simp [lineAt, hLine]
  · rename_i hJ
    rw [List.getElem?_eq_none (by simpa using hJ)]
    rfl

theorem drop_eq_map
    (lines : List Line)
    {i : Nat}
    (hBound : i ≤ lines.length) :
    lines.drop i =
      (List.range' i (lines.length - i)).map
        (lineAt lines) := by
  have hAll :=
    take_drop_eq_map lines (i := i) (k := lines.length - i)
      (by omega)
  rw [List.take_of_length_le (by simp)] at hAll
  exact hAll

variable {lowercase : Char → Bool} {isOpaque : List Bool}
variable {lines : List Line} {w : WrappedParagraph}

theorem mem_unitRest
    {l : Line}
    (hMember : l ∈ unitRest lines w) :
    ∃ j, w.start < j ∧ j ≤ w.stop ∧ l = lineAt lines j := by
  rcases List.mem_map.mp hMember with ⟨j, hJ, rfl⟩
  rw [List.mem_range'_1] at hJ
  exact ⟨j, by omega, by omega, rfl⟩

/- The lines of a unit may all be joined. -/
theorem isChain_unit
    (hUnit :
      IsUnit (classify isOpaque lines) lines w.start w.stop) :
    (lineAt lines w.start :: unitRest lines w).IsChain
      (fun prev line => startsJoinBlock line prev = false) := by
  have hWhole :
      lineAt lines w.start :: unitRest lines w =
        (List.range' w.start (w.stop - w.start + 1)).map
          (lineAt lines) := by
    rw [List.range'_succ, List.map_cons]
    rfl
  rw [hWhole, List.isChain_iff_getElem]
  intro j hJ
  rw [List.length_map, List.length_range'] at hJ
  rw [List.getElem_map, List.getElem_map,
    List.getElem_range', List.getElem_range']
  have hJoined :=
    hUnit.joined (w.start + j) (by omega) (by omega)
  simpa [Nat.add_assoc] using hJoined

/- The lines of a unit are all quoted, or none is. -/
theorem isBlockquote_unit
    (hUnit :
      IsUnit (classify isOpaque lines) lines w.start w.stop)
    {j : Nat}
    (hStart : w.start ≤ j)
    (hStop : j ≤ w.stop) :
    isBlockquote (lineAt lines j) =
      isBlockquote (lineAt lines w.start) := by
  induction j with
  | zero =>
      have hZero : w.start = 0 := by omega
      rw [hZero]
  | succ j ih =>
      by_cases hHere : w.start = j + 1
      · rw [hHere]
      · have hStep :=
          hUnit.joined j (by omega) (by omega)
        rw [(of_not_startsJoinBlock hStep).1,
          ih (by omega) (by omega)]

theorem trim_unit
    (hUnit :
      IsUnit (classify isOpaque lines) lines w.start w.stop) :
    trim (lineAt lines w.start) ≠ [] ∧
      ∀ l ∈ unitRest lines w,
        pieceOf (lineAt lines w.start) l ≠ [] := by
  have hLt := hUnit.lt
  constructor
  · exact
      (prose_line
        (hUnit.prose w.start (by omega) (by omega))).1
  · intro l hMember
    rcases mem_unitRest hMember with ⟨j, hStart, hStop, rfl⟩
    have hLine :=
      prose_line (hUnit.prose j (by omega) hStop)
    have hSame := isBlockquote_unit hUnit (by omega) hStop
    unfold pieceOf
    cases hQuoted : isBlockquote (lineAt lines w.start) with
    | true => exact hLine.2 (hSame.trans hQuoted)
    | false => exact hLine.1

theorem getLast_unit
    (hLt : w.start < w.stop) :
    (lineAt lines w.start :: unitRest lines w).getLast
        (List.cons_ne_nil _ _) = lineAt lines w.stop := by
  have hCount : w.stop - w.start = (w.stop - w.start - 1) + 1 := by
    omega
  have hRest :
      unitRest lines w =
        (List.range' (w.start + 1) (w.stop - w.start - 1)).map
            (lineAt lines) ++ [lineAt lines w.stop] := by
    unfold unitRest
    rw [hCount, List.range'_concat, List.map_append,
      List.map_singleton]
    have hStop : w.start + 1 + (w.stop - w.start - 1) = w.stop := by
      omega
    simp [hStop]
  simp [hRest]

/- A unit is joined to its one line. -/
theorem joinLines_unit
    (hUnit :
      IsUnit (classify isOpaque lines) lines w.start w.stop) :
    joinLines []
        ((lines.drop w.start).take (w.stop + 1 - w.start)) =
      ([unitLine lines w], markers lines w) := by
  have hLt := hUnit.lt
  have hBound := hUnit.bound
  have hCount : w.stop + 1 - w.start = w.stop - w.start + 1 := by
    omega
  rw [take_drop_eq_map lines (by omega), hCount,
    List.range'_succ, List.map_cons]
  exact joinLines_of_chain (isChain_unit hUnit)

end Reflow

------------------------------------------------------------
-- Runs
------------------------------------------------------------

namespace Reflow

variable {lowercase : Char → Bool} {isOpaque : List Bool}
variable {lines : List Line} {w : WrappedParagraph}

theorem spanEnd_eq_none
    {hot : List WrappedParagraph}
    {i : Nat}
    (hNone : spanEnd hot i = none) :
    ∀ w ∈ hot, w.start ≠ i := by
  unfold spanEnd at hNone
  rw [Option.map_eq_none_iff, List.find?_eq_none] at hNone
  intro w hMember hStart
  exact hNone w (List.mem_reverse.mpr hMember) (by simp [hStart])

theorem spanEnd_eq_some
    {hot : List WrappedParagraph}
    {i stop : Nat}
    (hSome : spanEnd hot i = some stop) :
    ∃ w ∈ hot, w.start = i ∧ w.stop = stop := by
  unfold spanEnd at hSome
  rcases Option.map_eq_some_iff.mp hSome with ⟨w, hFind, hStop⟩
  refine ⟨w, ?_, ?_, hStop⟩
  · exact List.mem_reverse.mp (List.mem_of_find?_eq_some hFind)
  · simpa using List.find?_some hFind

/- Two detected units are one, or one ends before the other. -/
theorem detect_apart
    {v : WrappedParagraph}
    (hV : v ∈ detect lowercase isOpaque lines)
    (hW : w ∈ detect lowercase isOpaque lines) :
    v = w ∨ v.stop < w.start ∨ w.stop < v.start := by
  rcases List.mem_iff_getElem.mp hV with ⟨i, hI, rfl⟩
  rcases List.mem_iff_getElem.mp hW with ⟨j, hJ, rfl⟩
  have hSorted := pairwise_detect lowercase isOpaque lines
  rw [List.pairwise_iff_getElem] at hSorted
  rcases Nat.lt_trichotomy i j with hLt | hEq | hGt
  · exact Or.inr (Or.inl (hSorted i j hI hJ hLt))
  · subst hEq
    exact Or.inl rfl
  · exact Or.inr (Or.inr (hSorted j i hJ hI hGt))

/-
  What is kept from the end back over each line outside the
  units and over each unit holds of the run from a line that
  is inside no unit. The induction is on the lines left.
-/
theorem reflowFrom_induction
    {motive : Nat → List Line × Nat → Prop}
    (hEnd : motive lines.length ([], 0))
    (hKeep :
      ∀ i later, i < lines.length →
        (∀ w ∈ detect lowercase isOpaque lines,
          i < w.start ∨ w.stop < i) →
        motive (i + 1) later →
        motive i (lineAt lines i :: later.1, later.2))
    (hUnit :
      ∀ w ∈ detect lowercase isOpaque lines, ∀ later,
        motive (w.stop + 1) later →
        motive w.start
          (unitLine lines w :: later.1,
            markers lines w + later.2))
    {i : Nat}
    (hBound : i ≤ lines.length)
    (hFree :
      ∀ w ∈ detect lowercase isOpaque lines,
        i ≤ w.start ∨ w.stop < i) :
    motive i
      (reflowFrom (detect lowercase isOpaque lines) i
        (lines.drop i)) := by
  induction hLeft : lines.length - i using Nat.strong_induction_on
    generalizing i with
  | _ left ih =>
      by_cases hLast : i = lines.length
      · subst hLast
        rw [List.drop_length, reflowFrom]
        exact hEnd
      · have hLt : i < lines.length := by omega
        have hLine : lineAt lines i = lines[i] := by
          unfold lineAt
          simp [hLt]
        rw [List.drop_eq_getElem_cons hLt, reflowFrom]
        cases hSpan :
            spanEnd (detect lowercase isOpaque lines) i with
        | none =>
            have hNone := spanEnd_eq_none hSpan
            have hOutside :
                ∀ w ∈ detect lowercase isOpaque lines,
                  i < w.start ∨ w.stop < i := by
              intro w hMember
              have hNe := hNone w hMember
              have hSide := hFree w hMember
              omega
            have hRest :=
              ih (lines.length - (i + 1)) (by omega)
                (i := i + 1) (by omega)
                (by
                  intro w hMember
                  have hSide := hOutside w hMember
                  omega)
                rfl
            rw [← hLine]
            exact hKeep i _ hLt hOutside hRest
        | some stop =>
            rcases spanEnd_eq_some hSpan with
              ⟨w, hMember, hStart, hStop⟩
            subst hStart
            subst hStop
            have hIs := isUnit_of_mem_detect hMember
            have hWide := hIs.lt
            have hInside := hIs.bound
            have hRest :=
              ih (lines.length - (w.stop + 1)) (by omega)
                (i := w.stop + 1) (by omega)
                (by
                  intro v hV
                  have hWideV := (isUnit_of_mem_detect hV).lt
                  rcases detect_apart hV hMember with
                    rfl | hBefore | hAfter
                  · exact Or.inr (Nat.lt_succ_self _)
                  · omega
                  · omega)
                rfl
            have hDrop :
                (lines.drop (w.start + 1)).drop
                    (w.stop - w.start) =
                  lines.drop (w.stop + 1) := by
              rw [List.drop_drop]
              congr 1
              omega
            simp only
            rw [← List.drop_eq_getElem_cons hLt,
              joinLines_unit hIs, hDrop]
            exact hUnit w hMember _ hRest

theorem reflowFrom_nil
    (i : Nat)
    (lines : List Line) :
    reflowFrom [] i lines = (lines, 0) := by
  induction lines generalizing i with
  | nil => rw [reflowFrom]
  | cons line rest ih =>
      rw [reflowFrom]
      have hNone : spanEnd [] i = none := rfl
      simp only [hNone, ih]

theorem reflowWithStats_eq
    (lowercase : Char → Bool)
    (isOpaque : List Bool)
    (lines : List Line) :
    reflowWithStats lowercase isOpaque lines =
      reflowFrom (detect lowercase isOpaque lines) 0 lines := by
  unfold reflowWithStats
  simp only
  split
  · rename_i hEmpty
    rw [List.isEmpty_iff.mp hEmpty, reflowFrom_nil]
  · rfl

/- The run's induction, for the whole of the lines. -/
theorem reflow_induction
    {motive : Nat → List Line × Nat → Prop}
    (hEnd : motive lines.length ([], 0))
    (hKeep :
      ∀ i later, i < lines.length →
        (∀ w ∈ detect lowercase isOpaque lines,
          i < w.start ∨ w.stop < i) →
        motive (i + 1) later →
        motive i (lineAt lines i :: later.1, later.2))
    (hUnit :
      ∀ w ∈ detect lowercase isOpaque lines, ∀ later,
        motive (w.stop + 1) later →
        motive w.start
          (unitLine lines w :: later.1,
            markers lines w + later.2)) :
    motive 0 (reflowWithStats lowercase isOpaque lines) := by
  rw [reflowWithStats_eq]
  exact reflowFrom_induction hEnd hKeep hUnit (Nat.zero_le _)
    (fun w _ => Or.inl (Nat.zero_le w.start))

end Reflow

------------------------------------------------------------
-- Places
------------------------------------------------------------

namespace Reflow

/- What stands at a line's place, given each unit's line. -/
def placed
    (lines : List Line)
    (hot : List WrappedParagraph)
    (lineOf : WrappedParagraph → Line)
    (i : Nat) : List Line :=
  match hot.find? (fun w => w.start = i) with
  | some w => [lineOf w]
  | none =>
      if hot.any (fun w => w.start < i ∧ i ≤ w.stop) then []
      else [lineAt lines i]

/-
  The lines with each unit's place taken by one line, and
  every line outside the units where it was.
-/
def assemble
    (lines : List Line)
    (hot : List WrappedParagraph)
    (lineOf : WrappedParagraph → Line) : List Line :=
  (List.range lines.length).flatMap (placed lines hot lineOf)

variable {lowercase : Char → Bool} {isOpaque : List Bool}
variable {lines : List Line} {w : WrappedParagraph}

theorem placed_outside
    {i : Nat}
    (lineOf : WrappedParagraph → Line)
    (hOutside :
      ∀ w ∈ detect lowercase isOpaque lines,
        i < w.start ∨ w.stop < i) :
    placed lines (detect lowercase isOpaque lines) lineOf i =
      [lineAt lines i] := by
  have hFind :
      (detect lowercase isOpaque lines).find?
          (fun w => w.start = i) = none := by
    rw [List.find?_eq_none]
    intro w hMember hStart
    have hSide := hOutside w hMember
    have hWide := (isUnit_of_mem_detect hMember).lt
    have hEq : w.start = i := by simpa using hStart
    omega
  have hAny :
      (detect lowercase isOpaque lines).any
          (fun w => w.start < i ∧ i ≤ w.stop) = false := by
    rw [List.any_eq_false]
    intro w hMember hInside
    have hSide := hOutside w hMember
    simp only [decide_eq_true_eq] at hInside
    omega
  unfold placed
  rw [hFind]
  simp only [hAny, Bool.false_eq_true, if_false]

theorem placed_start
    (lineOf : WrappedParagraph → Line)
    (hW : w ∈ detect lowercase isOpaque lines) :
    placed lines (detect lowercase isOpaque lines) lineOf
      w.start = [lineOf w] := by
  unfold placed
  cases hFind :
      (detect lowercase isOpaque lines).find?
        (fun v => v.start = w.start) with
  | none =>
      rw [List.find?_eq_none] at hFind
      exact absurd (by simp) (hFind w hW)
  | some v =>
      have hV := List.mem_of_find?_eq_some hFind
      have hStart : v.start = w.start := by
        simpa using List.find?_some hFind
      have hWideV := (isUnit_of_mem_detect hV).lt
      have hWideW := (isUnit_of_mem_detect hW).lt
      rcases detect_apart hV hW with rfl | hBefore | hAfter
      · rfl
      · omega
      · omega

theorem placed_inside
    (lineOf : WrappedParagraph → Line)
    (hW : w ∈ detect lowercase isOpaque lines)
    {i : Nat}
    (hStart : w.start < i)
    (hStop : i ≤ w.stop) :
    placed lines (detect lowercase isOpaque lines) lineOf i =
      [] := by
  have hFind :
      (detect lowercase isOpaque lines).find?
          (fun v => v.start = i) = none := by
    rw [List.find?_eq_none]
    intro v hV hAt
    have hEq : v.start = i := by simpa using hAt
    have hWideV := (isUnit_of_mem_detect hV).lt
    rcases detect_apart hV hW with rfl | hBefore | hAfter
    · omega
    · omega
    · omega
  have hAny :
      (detect lowercase isOpaque lines).any
          (fun w => w.start < i ∧ i ≤ w.stop) = true := by
    rw [List.any_eq_true]
    exact ⟨w, hW, by simp [hStart, hStop]⟩
  unfold placed
  rw [hFind]
  simp only [hAny, if_true]

/- The places of a unit hold its one line. -/
theorem placed_unit
    (lineOf : WrappedParagraph → Line)
    (hW : w ∈ detect lowercase isOpaque lines) :
    (List.range' w.start (w.stop + 1 - w.start)).flatMap
        (placed lines (detect lowercase isOpaque lines)
          lineOf) = [lineOf w] := by
  have hWide := (isUnit_of_mem_detect hW).lt
  have hCount : w.stop + 1 - w.start = w.stop - w.start + 1 := by
    omega
  have hRest :
      (List.range' (w.start + 1) (w.stop - w.start)).flatMap
        (placed lines (detect lowercase isOpaque lines)
          lineOf) = [] := by
    rw [List.flatMap_eq_nil_iff]
    intro i hMember
    rw [List.mem_range'_1] at hMember
    exact placed_inside lineOf hW (by omega) (by omega)
  rw [hCount, List.range'_succ, List.flatMap_cons,
    placed_start lineOf hW, hRest, List.append_nil]

theorem range'_split
    {w : WrappedParagraph}
    (hWide : w.start < w.stop)
    (hBound : w.stop < lines.length) :
    List.range' w.start (lines.length - w.start) =
      List.range' w.start (w.stop + 1 - w.start) ++
        List.range' (w.stop + 1)
          (lines.length - (w.stop + 1)) := by
  have hCount :
      lines.length - w.start =
        (w.stop + 1 - w.start) +
          (lines.length - (w.stop + 1)) := by
    omega
  have hNext : w.stop + 1 = w.start + (w.stop + 1 - w.start) := by
    omega
  rw [hCount]
  nth_rewrite 4 [hNext]
  exact List.range'_append_1.symm

/- The reflow puts each unit's joined line in its place. -/
theorem reflow_placed
    (lowercase : Char → Bool)
    (isOpaque : List Bool)
    (lines : List Line) :
    (reflowWithStats lowercase isOpaque lines).1 =
      assemble lines (detect lowercase isOpaque lines)
        (unitLine lines) := by
  have hRun :
      (reflowWithStats lowercase isOpaque lines).1 =
        (List.range' 0 (lines.length - 0)).flatMap
          (placed lines (detect lowercase isOpaque lines)
            (unitLine lines)) := by
    apply reflow_induction
      (motive := fun i r =>
        r.1 =
          (List.range' i (lines.length - i)).flatMap
            (placed lines (detect lowercase isOpaque lines)
              (unitLine lines)))
    · simp
    · intro i later hLt hOutside hLater
      have hCount : lines.length - i = lines.length - (i + 1) + 1 := by
        omega
      rw [hCount, List.range'_succ, List.flatMap_cons,
        placed_outside _ hOutside, ← hLater]
      rfl
    · intro w hW later hLater
      have hUnit := isUnit_of_mem_detect hW
      rw [range'_split hUnit.lt hUnit.bound,
        List.flatMap_append, placed_unit _ hW, ← hLater]
      rfl
  rw [hRun, assemble, List.range_eq_range', Nat.sub_zero]

end Reflow
