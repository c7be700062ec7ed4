import AgentWays.Reflow.UnitsSpec
import Mathlib.Order.MinMax

/-
  The first window of a unit that qualifies.

  The search keeps the least and greatest length of the lines
  it has taken in, and gives up an offset where the band
  fails: a longer window has the same lines and more.

  Key definitions include:
    * `Reflow.Qualifies`
    * `Reflow.IsFirst`

  Main declarations:
    * `Reflow.windowAt_eq`
    * `Reflow.firstWindow_eq_none_iff`
    * `Reflow.isFirst_of_firstWindow`
-/

------------------------------------------------------------
-- Least And Greatest
------------------------------------------------------------

namespace Reflow

/- A range that takes in one more length. -/
def extend
    (range : Option (Nat × Nat))
    (l : Nat) : Option (Nat × Nat) :=
  match range with
  | none => some (l, l)
  | some (lo, hi) => some (min lo l, max hi l)

/- The least and greatest of some lengths. -/
def extremes
    (taken : List Nat) : Option (Nat × Nat) :=
  taken.foldl extend none

theorem extremes_concat
    (taken : List Nat)
    (l : Nat) :
    extremes (taken ++ [l]) = extend (extremes taken) l := by
  unfold extremes
  rw [List.foldl_append]
  rfl

theorem extremes_eq_none_iff
    {taken : List Nat} :
    extremes taken = none ↔ taken = [] := by
  induction taken using List.reverseRecOn with
  | nil => exact iff_of_true rfl rfl
  | append_singleton rest l ih =>
      rw [extremes_concat]
      apply iff_of_false
      · unfold extend
        split <;> simp
      · simp

/- The least and greatest are among the lengths, and bound them. -/
theorem extremes_spec
    {taken : List Nat}
    {lo hi : Nat}
    (hRange : extremes taken = some (lo, hi)) :
    (lo ∈ taken ∧ hi ∈ taken) ∧
      ∀ l ∈ taken, lo ≤ l ∧ l ≤ hi := by
  induction taken using List.reverseRecOn generalizing lo hi with
  | nil => cases hRange
  | append_singleton rest l ih =>
      rw [extremes_concat] at hRange
      cases hRest : extremes rest with
      | none =>
          rw [hRest] at hRange
          cases hRange
          rw [extremes_eq_none_iff.mp hRest]
          simp
      | some range =>
          rcases range with ⟨lo', hi'⟩
          rw [hRest] at hRange
          cases hRange
          have hSpec := ih hRest
          refine ⟨⟨?_, ?_⟩, ?_⟩
          · rcases min_choice lo' l with hMin | hMin
            · rw [hMin]
              exact List.mem_append_left _ hSpec.1.1
            · rw [hMin]
              exact List.mem_concat_self
          · rcases max_choice hi' l with hMax | hMax
            · rw [hMax]
              exact List.mem_append_left _ hSpec.1.2
            · rw [hMax]
              exact List.mem_concat_self
          · intro l' hMem
            rcases List.mem_append.mp hMem with hOld | hNew
            · have hBounds := hSpec.2 l' hOld
              omega
            · rw [List.mem_singleton.mp hNew]
              omega

theorem extremes_append
    (taken more : List Nat) :
    extremes (taken ++ more) =
      more.foldl extend (extremes taken) := by
  unfold extremes
  rw [List.foldl_append]

end Reflow

------------------------------------------------------------
-- The Lengths Of A Window
------------------------------------------------------------

namespace Reflow

variable (cfg : DetectConfig) (lens : List Nat)

/- The unit's last line where it is short. -/
def isTail
    (i : Nat) : Bool :=
  i = lens.length - 1 ∧ lens.getD i 0 < cfg.minLen

/- The lengths of some lines, the short last line's left out. -/
def lengths
    (i count : Nat) : List Nat :=
  ((List.range' i count).filter
    (fun i => !isTail cfg lens i)).map (fun i => lens.getD i 0)

/- Lengths that lie in the band. -/
def inBand
    (range : Nat × Nat) : Bool :=
  cfg.minLen ≤ range.1 ∧ range.2 ≤ cfg.maxLen ∧
    range.2 - range.1 ≤ cfg.band

variable {cfg lens}

theorem lengths_add
    (i count more : Nat) :
    lengths cfg lens i (count + more) =
      lengths cfg lens i count ++
        lengths cfg lens (i + count) more := by
  unfold lengths
  have hSplit :
      List.range' i (count + more) =
        List.range' i count ++ List.range' (i + count) more := by
    rw [← List.range'_append_1]
  rw [hSplit, List.filter_append, List.map_append]

theorem mem_lengths
    {i count l : Nat} :
    l ∈ lengths cfg lens i count ↔
      ∃ j, i ≤ j ∧ j < i + count ∧ isTail cfg lens j = false ∧
        lens.getD j 0 = l := by
  unfold lengths
  simp only [List.mem_map, List.mem_filter, List.mem_range'_1,
    Bool.not_eq_true', and_assoc]

/- A window out of the band stays so as it grows. -/
theorem inBand_of_longer
    {i count more : Nat}
    {range range' : Nat × Nat}
    (hRange : extremes (lengths cfg lens i count) = some range)
    (hRange' :
      extremes (lengths cfg lens i (count + more)) = some range')
    (hBand : inBand cfg range' = true) :
    inBand cfg range = true := by
  rcases range with ⟨lo, hi⟩
  rcases range' with ⟨lo', hi'⟩
  rw [lengths_add] at hRange'
  have hMem := (extremes_spec hRange).1
  have hBounds := (extremes_spec hRange').2
  have hLo := hBounds lo (List.mem_append_left _ hMem.1)
  have hHi := hBounds hi (List.mem_append_left _ hMem.2)
  simp only [inBand, decide_eq_true_eq] at hBand ⊢
  omega

end Reflow

------------------------------------------------------------
-- The Windows From An Offset
------------------------------------------------------------

namespace Reflow

variable (lowercase : Char → Bool)

/- The mechanical breaks of a window. -/
def breaksIn
    (lines : List Line)
    (at' len : Nat) : Nat :=
  midBreaks lowercase ((lines.drop at').take len)

/- Whether a window has a banded line, and enough breaks. -/
def good
    (cfg : DetectConfig)
    (lines : List Line)
    (lens : List Nat)
    (pstart offset len : Nat) : Bool :=
  (extremes (lengths cfg lens offset len)).any (inBand cfg) &&
    decide
      (min cfg.minMidBreaks (len - 1) ≤
        breaksIn lowercase lines (pstart + offset) len)

variable {lowercase : Char → Bool} {cfg : DetectConfig}
  {lines : List Line} {lens : List Nat}

/- One length of the search: the lines taken in, and the tests. -/
theorem windowAt_succ
    (pstart offset more len : Nat)
    (range : Option (Nat × Nat)) :
    windowAt lowercase cfg lines lens pstart offset (more + 1)
        len range =
      let upto := if len = cfg.minRun then 0 else len - 1
      let range :=
        (lengths cfg lens (offset + upto) (len - upto)).foldl
          extend range
      let next :=
        windowAt lowercase cfg lines lens pstart offset more
          (len + 1) range
      match range with
      | none => next
      | some range =>
          if inBand cfg range then
            if min cfg.minMidBreaks (len - 1) ≤
                breaksIn lowercase lines (pstart + offset) len
            then
              some
                (offset, len,
                  breaksIn lowercase lines (pstart + offset) len)
            else next
          else none := by
  rw [windowAt]
  dsimp only
  let upto := if len = cfg.minRun then 0 else len - 1
  let taken :=
    (lengths cfg lens (offset + upto) (len - upto)).foldl
      extend range
  let next :=
    windowAt lowercase cfg lines lens pstart offset more
      (len + 1) taken
  let mids := breaksIn lowercase lines (pstart + offset) len
  change
    (match taken with
      | none => next
      | some (lo, hi) =>
          if lo < cfg.minLen ∨ cfg.maxLen < hi ∨
              cfg.band < hi - lo then none
          else if min cfg.minMidBreaks (len - 1) ≤ mids then
            some (offset, len, mids)
          else next) =
      match taken with
      | none => next
      | some range =>
          if inBand cfg range then
            if min cfg.minMidBreaks (len - 1) ≤ mids then
              some (offset, len, mids)
            else next
          else none
  cases taken with
  | none => rfl
  | some range =>
      rcases range with ⟨lo, hi⟩
      dsimp only
      by_cases hBand : inBand cfg (lo, hi) = true
      · rw [if_pos hBand, if_neg]
        simp only [inBand, decide_eq_true_eq] at hBand
        omega
      · rw [if_neg hBand, if_pos]
        simp only [inBand, decide_eq_true_eq] at hBand
        omega

/-
  The search from a length on gives the least length that is
  good. The induction is on the lengths left; the range is
  that of the window before.
-/
theorem windowAt_eq
    {pstart offset : Nat}
    (more len : Nat)
    (range : Option (Nat × Nat))
    (hLen : cfg.minRun ≤ len)
    (hRange :
      range =
        if len = cfg.minRun then none
        else extremes (lengths cfg lens offset (len - 1))) :
    windowAt lowercase cfg lines lens pstart offset more len
        range =
      ((List.range' len more).find?
        (good lowercase cfg lines lens pstart offset)).map
        (fun l =>
          (offset, l,
            breaksIn lowercase lines (pstart + offset) l)) := by
  induction more generalizing len range with
  | zero => rfl
  | succ more ih =>
      have hTaken :
          (lengths cfg lens
              (offset + if len = cfg.minRun then 0 else len - 1)
              (len - if len = cfg.minRun then 0 else len - 1)
              ).foldl extend range =
            extremes (lengths cfg lens offset len) := by
        rw [hRange]
        by_cases hFirst : len = cfg.minRun
        · simp only [if_pos hFirst]
          rfl
        · simp only [if_neg hFirst]
          rw [← extremes_append, ← lengths_add]
          congr 2
          omega
      have hNext :=
        ih (len + 1) (extremes (lengths cfg lens offset len))
          (Nat.le_succ_of_le hLen) (by
            rw [if_neg (by omega), Nat.add_sub_cancel])
      rw [windowAt_succ, List.range'_succ, List.find?_cons]
      dsimp only
      rw [hTaken, hNext]
      unfold good
      cases hNow : extremes (lengths cfg lens offset len) with
      | none => rfl
      | some range =>
          rw [Option.any_some]
          dsimp only
          by_cases hBand : inBand cfg range = true
          · rw [if_pos hBand, hBand, Bool.true_and]
            by_cases hEnough :
                min cfg.minMidBreaks (len - 1) ≤
                  breaksIn lowercase lines (pstart + offset) len
            · rw [if_pos hEnough, decide_eq_true hEnough]
              rfl
            · rw [if_neg hEnough, decide_eq_false hEnough]
          · have hNone :
                (List.range' (len + 1) more).find?
                    (good lowercase cfg lines lens pstart offset) =
                  none := by
              rw [List.find?_eq_none]
              intro l hMem hGood
              unfold good at hGood
              rw [Bool.and_eq_true, Option.any_eq_true] at hGood
              rcases hGood.1 with ⟨range', hRange', hBand'⟩
              have hLater : l = len + (l - len) := by
                have hLe := (List.mem_range'_1.mp hMem).1
                omega
              rw [hLater] at hRange'
              exact hBand (inBand_of_longer hNow hRange' hBand')
            rw [if_neg hBand, eq_false_of_ne_true hBand,
              Bool.false_and]
            unfold good at hNone
            rw [hNone]
            rfl

end Reflow

------------------------------------------------------------
-- Windows That Qualify
------------------------------------------------------------

namespace Reflow

def lengthAt
    (lines : List Line)
    (j : Nat) : Nat :=
  (trimEnd (lineAt lines j)).length

/- The last line of a unit, shorter than the band. -/
def IsShortFinal
    (cfg : DetectConfig)
    (lines : List Line)
    (unit : Nat × Nat)
    (j : Nat) : Prop :=
  j = unit.2 ∧ lengthAt lines j < cfg.minLen

/- The lines of a window that the band is about. -/
def IsBanded
    (cfg : DetectConfig)
    (lines : List Line)
    (unit : Nat × Nat)
    (s len j : Nat) : Prop :=
  s ≤ j ∧ j < s + len ∧ ¬ IsShortFinal cfg lines unit j

/- A window of a unit, by its first line and its length. -/
structure Qualifies
    (lowercase : Char → Bool)
    (cfg : DetectConfig)
    (lines : List Line)
    (unit : Nat × Nat)
    (s len : Nat) : Prop where
  starts : unit.1 ≤ s
  ends : s + len ≤ unit.2 + 1
  run : cfg.minRun ≤ len
  banded : ∃ j, IsBanded cfg lines unit s len j
  bounds :
    ∀ j, IsBanded cfg lines unit s len j →
      cfg.minLen ≤ lengthAt lines j ∧
        lengthAt lines j ≤ cfg.maxLen
  near :
    ∀ i j, IsBanded cfg lines unit s len i →
      IsBanded cfg lines unit s len j →
        lengthAt lines i ≤ lengthAt lines j + cfg.band
  breaks :
    min cfg.minMidBreaks (len - 1) ≤ breaksIn lowercase lines s len

/- The first by start, and by length at one start. -/
def IsFirst
    (lowercase : Char → Bool)
    (cfg : DetectConfig)
    (lines : List Line)
    (unit : Nat × Nat)
    (s len : Nat) : Prop :=
  Qualifies lowercase cfg lines unit s len ∧
    ∀ s' len', Qualifies lowercase cfg lines unit s' len' →
      s < s' ∨ s = s' ∧ len ≤ len'

/- The lengths that the search of a unit looks at. -/
def unitLens
    (lines : List Line)
    (unit : Nat × Nat) : List Nat :=
  ((lines.drop unit.1).take (unit.2 - unit.1 + 1)).map
    (fun l => (trimEnd l).length)

variable {lowercase : Char → Bool} {cfg : DetectConfig}
  {lines : List Line} {unit : Nat × Nat}

theorem length_unitLens
    (hOrder : unit.1 < unit.2)
    (hBound : unit.2 < lines.length) :
    (unitLens lines unit).length = unit.2 - unit.1 + 1 := by
  unfold unitLens
  rw [List.length_map, List.length_take, List.length_drop]
  omega

theorem getD_unitLens
    {i : Nat}
    (hBound : unit.2 < lines.length)
    (hWithin : unit.1 + i ≤ unit.2) :
    (unitLens lines unit).getD i 0 =
      lengthAt lines (unit.1 + i) := by
  unfold unitLens lengthAt lineAt
  have hLine : unit.1 + i < lines.length := by omega
  rw [List.getD_eq_getElem?_getD, List.getD_eq_getElem?_getD,
    List.getElem?_map, List.getElem?_take_of_lt (by omega),
    List.getElem?_drop, List.getElem?_eq_getElem hLine]
  rfl

theorem isTail_iff
    {i : Nat}
    (hOrder : unit.1 < unit.2)
    (hBound : unit.2 < lines.length)
    (hWithin : unit.1 + i ≤ unit.2) :
    isTail cfg (unitLens lines unit) i = true ↔
      IsShortFinal cfg lines unit (unit.1 + i) := by
  unfold isTail IsShortFinal
  rw [decide_eq_true_eq, length_unitLens hOrder hBound,
    getD_unitLens hBound hWithin]
  apply and_congr_left'
  omega

/- The lengths taken in are those of the banded lines. -/
theorem mem_lengths_unitLens
    {offset len l : Nat}
    (hOrder : unit.1 < unit.2)
    (hBound : unit.2 < lines.length)
    (hEnds : unit.1 + offset + len ≤ unit.2 + 1) :
    l ∈ lengths cfg (unitLens lines unit) offset len ↔
      ∃ j, IsBanded cfg lines unit (unit.1 + offset) len j ∧
        lengthAt lines j = l := by
  rw [mem_lengths]
  constructor
  · rintro ⟨i, hFrom, hTo, hTail, rfl⟩
    have hWithin : unit.1 + i ≤ unit.2 := by omega
    refine ⟨unit.1 + i, ⟨by omega, by omega, ?_⟩, ?_⟩
    · rw [← isTail_iff hOrder hBound hWithin, hTail]
      simp
    · rw [getD_unitLens hBound hWithin]
  · rintro ⟨j, ⟨hFrom, hTo, hTail⟩, rfl⟩
    have hLine : j = unit.1 + (j - unit.1) := by omega
    rw [hLine] at hTail ⊢
    refine ⟨j - unit.1, by omega, by omega, ?_, ?_⟩
    · rw [← isTail_iff hOrder hBound (by omega)] at hTail
      exact eq_false_of_ne_true hTail
    · exact getD_unitLens hBound (by omega)

theorem good_iff
    {offset len : Nat}
    (hOrder : unit.1 < unit.2)
    (hBound : unit.2 < lines.length)
    (hEnds : unit.1 + offset + len ≤ unit.2 + 1)
    (hRun : cfg.minRun ≤ len) :
    good lowercase cfg lines (unitLens lines unit) unit.1 offset
        len = true ↔
      Qualifies lowercase cfg lines unit (unit.1 + offset)
        len := by
  have hMem {l : Nat} :=
    @mem_lengths_unitLens cfg _ _ _ _ l hOrder hBound hEnds
  unfold good
  rw [Bool.and_eq_true, Option.any_eq_true, decide_eq_true_eq]
  constructor
  · rintro ⟨⟨⟨lo, hi⟩, hRange, hBand⟩, hBreaks⟩
    have hSpec := extremes_spec hRange
    simp only [inBand, decide_eq_true_eq] at hBand
    have hBounds {j : Nat}
        (hBanded :
          IsBanded cfg lines unit (unit.1 + offset) len j) :=
      hSpec.2 _ (hMem.mpr ⟨j, hBanded, rfl⟩)
    rcases hMem.mp hSpec.1.1 with ⟨j, hBanded, -⟩
    exact
      { starts := Nat.le_add_right _ _
        ends := hEnds
        run := hRun
        banded := ⟨j, hBanded⟩
        bounds := by
          intro j hBanded
          have hLength := hBounds hBanded
          omega
        near := by
          intro i j hBanded hBanded'
          have hLength := hBounds hBanded
          have hLength' := hBounds hBanded'
          omega
        breaks := hBreaks }
  · intro hQualifies
    refine ⟨?_, hQualifies.breaks⟩
    rcases hQualifies.banded with ⟨j, hBanded⟩
    cases hRange :
        extremes (lengths cfg (unitLens lines unit) offset len)
      with
    | none =>
        have hLength := hMem.mpr ⟨j, hBanded, rfl⟩
        rw [extremes_eq_none_iff.mp hRange] at hLength
        cases hLength
    | some range =>
        rcases range with ⟨lo, hi⟩
        have hSpec := extremes_spec hRange
        rcases hMem.mp hSpec.1.1 with ⟨i, hLow, rfl⟩
        rcases hMem.mp hSpec.1.2 with ⟨k, hHigh, rfl⟩
        have hMin := (hQualifies.bounds i hLow).1
        have hMax := (hQualifies.bounds k hHigh).2
        have hNear := hQualifies.near k i hHigh hLow
        refine ⟨_, rfl, ?_⟩
        simp only [inBand, decide_eq_true_eq]
        omega

end Reflow

------------------------------------------------------------
-- The First Window
------------------------------------------------------------

namespace Reflow

variable {lowercase : Char → Bool} {cfg : DetectConfig}
  {lines : List Line} {unit : Nat × Nat}

/- The search of a unit, as a search among its windows. -/
theorem firstWindow_eq
    (hLong : cfg.minRun ≤ unit.2 - unit.1 + 1) :
    firstWindow lowercase cfg lines unit =
      ((List.range (unit.2 - unit.1 + 1 - cfg.minRun + 1)
        ).findSome?
          (fun offset =>
            ((List.range' cfg.minRun
              (unit.2 - unit.1 + 1 - offset + 1 - cfg.minRun)
              ).find?
                (good lowercase cfg lines (unitLens lines unit)
                  unit.1 offset)).map
              (fun l =>
                (offset, l,
                  breaksIn lowercase lines (unit.1 + offset)
                    l)))).map
        (fun w =>
          { start := unit.1
            stop := unit.2
            triggerStart := unit.1 + w.1
            triggerLen := w.2.1
            midBreaks := w.2.2 }) := by
  unfold firstWindow
  dsimp only
  rw [if_neg (Nat.not_lt.mpr hLong)]
  congr 2
  funext offset
  have hSearch :=
    @windowAt_eq lowercase _ lines (unitLens lines unit) unit.1
      offset
      (unit.2 - unit.1 + 1 - offset + 1 - cfg.minRun) cfg.minRun
      none (Nat.le_refl _) (by rw [if_pos rfl])
  exact hSearch

/- A window of a unit is among those that are searched. -/
theorem Qualifies.offset
    {s len : Nat}
    (hQualifies : Qualifies lowercase cfg lines unit s len) :
    ∃ offset, s = unit.1 + offset ∧ 0 < len := by
  rcases hQualifies.banded with ⟨j, hFrom, hTo, -⟩
  have hStarts := hQualifies.starts
  exact ⟨s - unit.1, by omega, by omega⟩

theorem firstWindow_eq_none_iff
    (hOrder : unit.1 < unit.2)
    (hBound : unit.2 < lines.length) :
    firstWindow lowercase cfg lines unit = none ↔
      ¬ ∃ s len, Qualifies lowercase cfg lines unit s len := by
  by_cases hLong : cfg.minRun ≤ unit.2 - unit.1 + 1
  · rw [firstWindow_eq hLong, Option.map_eq_none_iff,
      List.findSome?_eq_none_iff]
    constructor
    · rintro hNone ⟨s, len, hQualifies⟩
      rcases hQualifies.offset with ⟨offset, rfl, hPos⟩
      have hEnds := hQualifies.ends
      have hRun := hQualifies.run
      have hSearch :=
        hNone offset (List.mem_range.mpr (by omega))
      rw [Option.map_eq_none_iff, List.find?_eq_none] at hSearch
      apply hSearch len (List.mem_range'_1.mpr (by omega))
      exact (good_iff hOrder hBound hEnds hRun).mpr hQualifies
    · intro hNone offset hMem
      rw [Option.map_eq_none_iff, List.find?_eq_none]
      intro len hLen hGood
      rw [List.mem_range] at hMem
      rw [List.mem_range'_1] at hLen
      have hQualifies :=
        (good_iff hOrder hBound (by omega) hLen.1).mp hGood
      exact hNone ⟨_, len, hQualifies⟩
  · apply iff_of_true
    · unfold firstWindow
      dsimp only
      rw [if_pos (Nat.not_le.mp hLong)]
    · rintro ⟨s, len, hQualifies⟩
      have hEnds := hQualifies.ends
      have hRun := hQualifies.run
      have hStarts := hQualifies.starts
      omega

theorem isFirst_of_firstWindow
    {w : WrappedParagraph}
    (hOrder : unit.1 < unit.2)
    (hBound : unit.2 < lines.length)
    (hWindow : firstWindow lowercase cfg lines unit = some w) :
    IsFirst lowercase cfg lines unit w.triggerStart w.triggerLen ∧
      w.midBreaks =
        breaksIn lowercase lines w.triggerStart w.triggerLen := by
  by_cases hLong : cfg.minRun ≤ unit.2 - unit.1 + 1
  · rw [firstWindow_eq hLong,
      Option.map_eq_some_iff] at hWindow
    rcases hWindow with ⟨found, hFound, rfl⟩
    rcases List.findSome?_eq_some_iff.mp hFound with
      ⟨earlier, offset, later, hRange, hHere, hEarlier⟩
    rcases Option.map_eq_some_iff.mp hHere with ⟨len, hFind, rfl⟩
    rw [List.find?_range'_eq_some] at hFind
    rcases hFind with ⟨hGood, hLen, hShorter⟩
    rw [List.mem_range'_1] at hLen
    have hOffset :
        offset ∈
          List.range (unit.2 - unit.1 + 1 - cfg.minRun + 1) := by
      rw [hRange]
      simp
    rw [List.mem_range] at hOffset
    refine ⟨⟨?_, ?_⟩, rfl⟩
    · exact (good_iff hOrder hBound (by omega) hLen.1).mp hGood
    · intro s' len' hQualifies
      rcases hQualifies.offset with ⟨offset', rfl, hPos⟩
      have hEnds := hQualifies.ends
      have hRun := hQualifies.run
      have hGood' :=
        (good_iff hOrder hBound hEnds hRun).mpr hQualifies
      dsimp only
      rcases Nat.lt_trichotomy offset' offset with
        hBefore | rfl | hAfter
      · -- An offset before the one found has no window.
        have hMem : offset' ∈ earlier := by
          have hIndex : offset' ∈
              List.range (unit.2 - unit.1 + 1 - cfg.minRun + 1) :=
            List.mem_range.mpr (by omega)
          have hSorted :=
            List.pairwise_lt_range
              (n := unit.2 - unit.1 + 1 - cfg.minRun + 1)
          rw [hRange] at hIndex hSorted
          rcases List.mem_append.mp hIndex with hIn | hOut
          · exact hIn
          · rcases List.mem_cons.mp hOut with hSame | hLater
            · omega
            · have hLt :=
                (List.pairwise_cons.mp
                  (List.pairwise_append.mp hSorted).2.1).1 offset'
                  hLater
              omega
        have hNone := hEarlier offset' hMem
        rw [Option.map_eq_none_iff, List.find?_eq_none] at hNone
        exact
          absurd hGood'
            (hNone len' (List.mem_range'_1.mpr (by omega)))
      · refine Or.inr ⟨rfl, ?_⟩
        by_contra hShort
        have hNot := hShorter len' hRun (Nat.not_le.mp hShort)
        rw [hGood'] at hNot
        cases hNot
      · exact Or.inl (by omega)
  · unfold firstWindow at hWindow
    dsimp only at hWindow
    rw [if_pos (Nat.not_le.mp hLong)] at hWindow
    cases hWindow

end Reflow
