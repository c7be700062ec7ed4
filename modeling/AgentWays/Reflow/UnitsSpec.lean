import AgentWays.Reflow.Flatten

/-
  What a unit is: prose lines in order, no line of it opening
  a block after the one before. The units are in order and
  apart, and a detected unit is one of them.

  Key definitions include:
    * `Reflow.IsUnit`

  Main declarations:
    * `Reflow.isUnit_of_mem_units`
    * `Reflow.isUnit_of_mem_detect`
    * `Reflow.pairwise_detect`
-/

------------------------------------------------------------
-- Units
------------------------------------------------------------

namespace Reflow

/- The line of an index. -/
def lineAt
    (lines : List Line)
    (j : Nat) : Line :=
  lines.getD j []

/- A span of prose that a repair would join. -/
structure IsUnit
    (kinds : List LineKind)
    (lines : List Line)
    (s e : Nat) : Prop where
  lt : s < e
  bound : e < lines.length
  prose : ∀ j, s ≤ j → j ≤ e → kinds[j]? = some .prose
  joined :
    ∀ j, s ≤ j → j < e →
      startsJoinBlock (lineAt lines (j + 1))
        (lineAt lines j) = false

/- A span that is open before a line. -/
structure IsOpen
    (kinds : List LineKind)
    (lines : List Line)
    (s i : Nat) : Prop where
  lt : s < i
  prose : ∀ j, s ≤ j → j < i → kinds[j]? = some .prose
  joined :
    ∀ j, s ≤ j → j + 1 < i →
      startsJoinBlock (lineAt lines (j + 1))
        (lineAt lines j) = false

variable {kinds : List LineKind} {lines : List Line}

theorem IsOpen.mem_close
    {s i : Nat}
    (hOpen : IsOpen kinds lines s i)
    (hBound : i ≤ lines.length)
    {u : Nat × Nat}
    (hMember : u ∈ close s (i - 1)) :
    IsUnit kinds lines u.1 u.2 ∧ u.1 = s ∧ u.2 < i := by
  have hLt := hOpen.lt
  unfold close at hMember
  split at hMember
  · rw [List.mem_singleton.mp hMember]
    rename_i hWide
    refine ⟨⟨hWide, by simp only; omega, ?_, ?_⟩, rfl,
      by simp only; omega⟩
    · intro j hStart hEnd
      exact hOpen.prose j hStart (by simp only at hEnd; omega)
    · intro j hStart hEnd
      exact hOpen.joined j hStart (by simp only at hEnd; omega)
  · cases hMember

theorem isOpen_singleton
    {i : Nat}
    (hKind : kinds[i]? = some .prose) :
    IsOpen kinds lines i (i + 1) := by
  refine ⟨by omega, ?_, ?_⟩
  · intro j hStart hEnd
    have hJ : j = i := by omega
    rw [hJ, hKind]
  · intro j hStart hEnd
    omega

theorem IsOpen.extend
    {s i : Nat}
    (hOpen : IsOpen kinds lines s i)
    (hKind : kinds[i]? = some .prose)
    (hJoin :
      startsJoinBlock (lineAt lines i)
        (lineAt lines (i - 1)) = false) :
    IsOpen kinds lines s (i + 1) := by
  have hLt := hOpen.lt
  refine ⟨by omega, ?_, ?_⟩
  · intro j hStart hEnd
    by_cases hJ : j = i
    · rw [hJ, hKind]
    · exact hOpen.prose j hStart (by omega)
  · intro j hStart hEnd
    by_cases hJ : j + 1 = i
    · rw [hJ]
      have hPrev : j = i - 1 := by omega
      rw [hPrev]
      exact hJoin
    · exact hOpen.joined j hStart (by omega)

/-
  What the loop gives from a line on. The induction is on
  the lines left; the open span is carried along.
-/
theorem unitsFrom_spec
    {rest : List (LineKind × Line)}
    {taken : List (LineKind × Line)}
    {prev : Line}
    {start : Option Nat}
    (hLines : kinds.zip lines = taken ++ rest)
    (hLength : kinds.length = lines.length)
    (hPrev :
      0 < taken.length →
        lineAt lines (taken.length - 1) = prev)
    (hOpen :
      ∀ s ∈ start, IsOpen kinds lines s taken.length) :
    (∀ u ∈ unitsFrom taken.length prev start rest,
        IsUnit kinds lines u.1 u.2 ∧
          start.getD taken.length ≤ u.1) ∧
      (unitsFrom taken.length prev start rest).Pairwise
        (fun u v => u.2 < v.1) := by
  have hSizes := congrArg List.length hLines
  rw [List.length_zip, List.length_append] at hSizes
  induction rest generalizing taken prev start with
  | nil =>
      cases start with
      | none => exact ⟨by simp [unitsFrom], by simp [unitsFrom]⟩
      | some s =>
          have hClose := fun u hMember =>
            (hOpen s rfl).mem_close
              (by simp only [List.length_nil] at hSizes; omega)
              (u := u) hMember
          refine ⟨?_, ?_⟩
          · intro u hMember
            have hUnit := hClose u hMember
            exact ⟨hUnit.1, by simp [hUnit.2.1]⟩
          · unfold unitsFrom close
            split <;> simp
  | cons pair rest ih =>
      rcases pair with ⟨kind, line⟩
      have hIndex :
          (kinds.zip lines)[taken.length]? = some (kind, line) := by
        rw [hLines]
        simp
      have hKind : kinds[taken.length]? = some kind := by
        rw [List.getElem?_zip_eq_some] at hIndex
        exact hIndex.1
      have hLine : lineAt lines taken.length = line := by
        rw [List.getElem?_zip_eq_some] at hIndex
        unfold lineAt
        rw [List.getD_eq_getElem?_getD, hIndex.2]
        rfl
      have hBound : taken.length ≤ lines.length := by
        rw [List.length_cons] at hSizes
        omega
      have hNext :
          kinds.zip lines = (taken ++ [(kind, line)]) ++ rest := by
        rw [hLines, List.append_assoc]
        rfl
      have hNextLength :
          (taken ++ [(kind, line)]).length = taken.length + 1 := by
        simp
      have hRun :
          ∀ start : Option Nat,
            (∀ s ∈ start,
              IsOpen kinds lines s (taken.length + 1)) →
            (∀ u ∈ unitsFrom (taken.length + 1) line start rest,
                IsUnit kinds lines u.1 u.2 ∧
                  start.getD (taken.length + 1) ≤ u.1) ∧
              (unitsFrom (taken.length + 1) line start
                rest).Pairwise (fun u v => u.2 < v.1) := by
        intro start hStart
        have hNextPrev :
            0 < (taken ++ [(kind, line)]).length →
              lineAt lines
                ((taken ++ [(kind, line)]).length - 1) =
                line := by
          intro _
          rw [hNextLength]
          exact hLine
        have hNextOpen :
            ∀ s ∈ start,
              IsOpen kinds lines s
                (taken ++ [(kind, line)]).length := by
          rw [hNextLength]
          exact hStart
        have hIh :=
          ih hNext hNextPrev hNextOpen (by
            rw [List.length_cons] at hSizes
            rw [hNextLength]
            omega)
        rw [hNextLength] at hIh
        exact hIh
      have hAfterClose :
          ∀ (s : Nat) (later : List (Nat × Nat)),
            IsOpen kinds lines s taken.length →
            (∀ u ∈ later, IsUnit kinds lines u.1 u.2 ∧
              taken.length ≤ u.1) →
            later.Pairwise (fun u v => u.2 < v.1) →
            (∀ u ∈ close s (taken.length - 1) ++ later,
                IsUnit kinds lines u.1 u.2 ∧ s ≤ u.1) ∧
              (close s (taken.length - 1) ++ later).Pairwise
                (fun u v => u.2 < v.1) := by
        intro s later hSpan hLater hSorted
        have hClose := fun u hMember =>
          hSpan.mem_close hBound (u := u) hMember
        have hLt := hSpan.lt
        refine ⟨?_, ?_⟩
        · intro u hMember
          rcases List.mem_append.mp hMember with hHere | hThere
          · have hUnit := hClose u hHere
            exact ⟨hUnit.1, by omega⟩
          · have hUnit := hLater u hThere
            exact ⟨hUnit.1, by omega⟩
        · rw [List.pairwise_append]
          refine ⟨?_, hSorted, ?_⟩
          · unfold close
            split <;> simp
          · intro u hHere v hThere
            have hUnit := hClose u hHere
            have hOther := hLater v hThere
            omega
      cases kind with
      | prose =>
          cases start with
          | none =>
              unfold unitsFrom
              have hStep :=
                hRun (some taken.length) (by
                  rintro s ⟨⟩
                  exact isOpen_singleton hKind)
              exact hStep
          | some s =>
              unfold unitsFrom
              have hSpan := hOpen s rfl
              cases hJoin : startsJoinBlock line prev with
              | true =>
                  have hStep :=
                    hRun (some taken.length) (by
                      rintro s ⟨⟩
                      exact isOpen_singleton hKind)
                  exact hAfterClose s _ hSpan hStep.1 hStep.2
              | false =>
                  have hStep :=
                    hRun (some s) (by
                      rintro s ⟨⟩
                      refine hSpan.extend hKind ?_
                      have hLt := hSpan.lt
                      rw [hLine, hPrev (by omega)]
                      exact hJoin)
                  exact hStep
      | verbatim | blank =>
          have hStep := hRun none (by simp)
          have hWeaker :
              ∀ u ∈ unitsFrom (taken.length + 1) line none rest,
                IsUnit kinds lines u.1 u.2 ∧
                  taken.length ≤ u.1 := by
            intro u hMember
            have hUnit := hStep.1 u hMember
            simp only [Option.getD_none] at hUnit
            exact ⟨hUnit.1, by omega⟩
          cases start with
          | none =>
              unfold unitsFrom
              exact ⟨hWeaker, hStep.2⟩
          | some s =>
              unfold unitsFrom
              exact hAfterClose s _ (hOpen s rfl) hWeaker
                hStep.2

theorem length_classify
    (isOpaque : List Bool)
    (lines : List Line) :
    (classify isOpaque lines).length = lines.length :=
  List.length_mapIdx

theorem units_spec
    (isOpaque : List Bool)
    (lines : List Line) :
    (∀ u ∈ units (classify isOpaque lines) lines,
        IsUnit (classify isOpaque lines) lines u.1 u.2) ∧
      (units (classify isOpaque lines) lines).Pairwise
        (fun u v => u.2 < v.1) := by
  have hPrev :
      0 < ([] : List (LineKind × Line)).length →
        lineAt lines
          (([] : List (LineKind × Line)).length - 1) = [] :=
    fun hPos => absurd hPos (Nat.lt_irrefl 0)
  have hOpen :
      ∀ s ∈ (none : Option Nat),
        IsOpen (classify isOpaque lines) lines s
          ([] : List (LineKind × Line)).length := by
    simp
  have hSpec :=
    unitsFrom_spec (List.nil_append _).symm
      (length_classify isOpaque lines) hPrev hOpen
  exact ⟨fun u hMember => (hSpec.1 u hMember).1, hSpec.2⟩

/- A detected unit keeps the span of the unit it is in. -/
theorem firstWindow_span
    {lowercase : Char → Bool}
    {cfg : DetectConfig}
    {lines : List Line}
    {unit : Nat × Nat}
    {w : WrappedParagraph}
    (hWindow : firstWindow lowercase cfg lines unit = some w) :
    unit = (w.start, w.stop) := by
  unfold firstWindow at hWindow
  simp only at hWindow
  split at hWindow
  · cases hWindow
  · rcases Option.map_eq_some_iff.mp hWindow with ⟨t, -, hW⟩
    rw [← hW]

variable {lowercase : Char → Bool} {isOpaque : List Bool}

theorem isUnit_of_mem_detect
    {lines : List Line}
    {w : WrappedParagraph}
    (hMember : w ∈ detect lowercase isOpaque lines) :
    IsUnit (classify isOpaque lines) lines w.start w.stop := by
  rcases List.mem_filterMap.mp hMember with
    ⟨unit, hUnit, hWindow⟩
  have hSpan := firstWindow_span hWindow
  have hIs := (units_spec isOpaque lines).1 unit hUnit
  rw [hSpan] at hIs
  exact hIs

theorem pairwise_detect
    (lowercase : Char → Bool)
    (isOpaque : List Bool)
    (lines : List Line) :
    (detect lowercase isOpaque lines).Pairwise
      (fun v w => v.stop < w.start) := by
  unfold detect detectWith
  rw [List.pairwise_filterMap]
  apply (units_spec isOpaque lines).2.imp
  intro a b hApart v hV w hW
  rw [firstWindow_span hV, firstWindow_span hW] at hApart
  exact hApart

/- A line of prose has a word, behind its quote marker too. -/
theorem prose_line
    {lines : List Line}
    {j : Nat}
    (hKind :
      (classify isOpaque lines)[j]? = some .prose) :
    trim (lineAt lines j) ≠ [] ∧
      (isBlockquote (lineAt lines j) = true →
        trim (quoteBody (lineAt lines j)) ≠ []) := by
  unfold classify at hKind
  rw [List.getElem?_mapIdx] at hKind
  rcases Option.map_eq_some_iff.mp hKind with
    ⟨line, hLine, hProse⟩
  have hAt : lineAt lines j = line := by
    unfold lineAt
    rw [List.getD_eq_getElem?_getD, hLine]
    rfl
  rw [hAt]
  split at hProse
  · cases hProse
  · split at hProse
    · cases hProse
    · rename_i hText
      unfold isEmptyBlockquote at hText
      simp only [Bool.or_eq_true, Bool.and_eq_true,
        List.isEmpty_iff, not_or, not_and] at hText
      exact hText

end Reflow
