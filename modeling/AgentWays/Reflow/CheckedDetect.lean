import AgentWays.Reflow.FirstWindow
import Mathlib.Data.List.ReduceOption

/-
  The detector with its subtractions, its indices and its
  slices checked: a fault is an answer of none.

  No configuration reaches a fault, the ones with a least run
  of none or one included.

  Key definitions include:
    * `Reflow.Checked.units`
    * `Reflow.Checked.windowAt`
    * `Reflow.Checked.detectWith`
    * `Reflow.FindsWindows`

  Main declarations:
    * `Reflow.Checked.detectWith_eq`
    * `Reflow.detectWith_finds`
-/

------------------------------------------------------------
-- The Detector, Checked
------------------------------------------------------------

namespace Reflow.Checked

/- A subtraction that faults below zero. -/
def sub
    (a b : Nat) : Option Nat :=
  if b ≤ a then some (a - b) else none

/- A slice that faults where an end is out of order or range. -/
def slice
    (lines : List Line)
    (s e : Nat) : Option (List Line) :=
  if s ≤ e ∧ e ≤ lines.length then
    some ((lines.drop s).take (e - s))
  else none

def unitsFrom
    (lines : List Line)
    (i : Nat) :
    Option Nat → List LineKind → Option (List (Nat × Nat))
| none, [] => some []
| some s, [] => do
    let e ← sub i 1
    some (close s e)
| none, .prose :: rest => unitsFrom lines (i + 1) (some i) rest
| some s, .prose :: rest => do
    let line ← lines[i]?
    let e ← sub i 1
    let prev ← lines[e]?
    if startsJoinBlock line prev then
      let later ← unitsFrom lines (i + 1) (some i) rest
      some (close s e ++ later)
    else unitsFrom lines (i + 1) (some s) rest
| none, _ :: rest => unitsFrom lines (i + 1) none rest
| some s, _ :: rest => do
    let e ← sub i 1
    let later ← unitsFrom lines (i + 1) none rest
    some (close s e ++ later)

def units
    (kinds : List LineKind)
    (lines : List Line) : Option (List (Nat × Nat)) :=
  unitsFrom lines 0 none kinds

variable (lowercase : Char → Bool) (cfg : DetectConfig)
  (lines : List Line)

/- A line taken into the range, but the short last one. -/
def take
    (lens : List Nat)
    (last : Nat)
    (range : Option (Nat × Nat))
    (l : Nat × Nat) : Option (Option (Nat × Nat)) := do
  let own ← lens[l.2]?
  if l.2 = last ∧ own < cfg.minLen then some range
  else some (extend range l.1)

def windowAt
    (lens : List Nat)
    (pstart offset : Nat) :
    Nat → Nat → Option (Nat × Nat) →
      Option (Option (Nat × Nat × Nat))
| 0, _, _ => some none
| more + 1, len, range => do
    let upto ← (if len = cfg.minRun then some 0 else sub len 1)
    let last ← sub lens.length 1
    let range ←
      ((lens.zipIdx.take (offset + len)).drop
        (offset + upto)).foldlM (take cfg lens last) range
    let next := windowAt lens pstart offset more (len + 1) range
    match range with
    | none => next
    | some (lo, hi) =>
        let wide ← sub hi lo
        if lo < cfg.minLen ∨ cfg.maxLen < hi ∨ cfg.band < wide
        then some none
        else
          let win ←
            slice lines (pstart + offset) (pstart + offset + len)
          let most ← sub len 1
          if min cfg.minMidBreaks most ≤ midBreaks lowercase win
          then some (some (offset, len, midBreaks lowercase win))
          else next

/- The offsets of a unit, one after another. -/
def search
    (lens : List Nat)
    (pstart : Nat) :
    List Nat → Option (Option (Nat × Nat × Nat))
| [] => some none
| offset :: rest => do
    let most ← sub lens.length offset
    let found ←
      windowAt lowercase cfg lines lens pstart offset
        (most + 1 - cfg.minRun) cfg.minRun none
    match found with
    | some w => some (some w)
    | none => search lens pstart rest

def firstWindow
    (unit : Nat × Nat) : Option (Option WrappedParagraph) := do
  let span ← sub unit.2 unit.1
  if span + 1 < cfg.minRun then some none
  else
    let own ← slice lines unit.1 (unit.2 + 1)
    let lens := own.map (fun l => (trimEnd l).length)
    let most ← sub (span + 1) cfg.minRun
    let found ←
      search lowercase cfg lines lens unit.1
        (List.range (most + 1))
    some
      (found.map
        (fun w =>
          { start := unit.1
            stop := unit.2
            triggerStart := unit.1 + w.1
            triggerLen := w.2.1
            midBreaks := w.2.2 }))

def detectWith
    (isOpaque : List Bool) :
    Option (List WrappedParagraph) := do
  let spans ← units (classify isOpaque lines) lines
  let found ← spans.mapM (firstWindow lowercase cfg lines)
  some found.reduceOption

end Reflow.Checked

------------------------------------------------------------
-- Units Without A Fault
------------------------------------------------------------

namespace Reflow.Checked

variable {lowercase : Char → Bool} {cfg : DetectConfig}
  {lines : List Line}

theorem sub_eq
    {a b : Nat}
    (hLe : b ≤ a) :
    sub a b = some (a - b) :=
  if_pos hLe

theorem slice_eq
    {s len : Nat}
    (hBound : s + len ≤ lines.length) :
    slice lines s (s + len) = some ((lines.drop s).take len) := by
  unfold slice
  rw [if_pos ⟨Nat.le_add_right _ _, hBound⟩,
    Nat.add_sub_cancel_left]

/- The loop reads lines that are there. -/
theorem unitsFrom_eq
    {rest : List LineKind}
    {i : Nat}
    {start : Option Nat}
    {prev : Line}
    (hLength : i + rest.length = lines.length)
    (hPrev : 0 < i → lines[i - 1]? = some prev)
    (hStart : ∀ s ∈ start, s < i) :
    unitsFrom lines i start rest =
      some
        (Reflow.unitsFrom i prev start
          (rest.zip (lines.drop i))) := by
  induction rest generalizing i start prev with
  | nil =>
      cases start with
      | none => rfl
      | some s =>
          have hPos := hStart s rfl
          unfold unitsFrom Reflow.unitsFrom
          rw [sub_eq (by omega)]
          rfl
  | cons kind rest ih =>
      rw [List.length_cons] at hLength
      have hLt : i < lines.length := by omega
      have hLine : lines[i]? = some lines[i] :=
        List.getElem?_eq_getElem hLt
      have hDrop :
          lines.drop i = lines[i] :: lines.drop (i + 1) :=
        List.drop_eq_getElem_cons hLt
      have hNext {start : Option Nat}
          (hStart : ∀ s ∈ start, s < i + 1) :=
        @ih (i + 1) start lines[i]
          (by omega)
          (fun _ => by rw [Nat.add_sub_cancel]; exact hLine)
          hStart
      have hHere : ∀ s ∈ some i, s < i + 1 := by
        rintro s ⟨⟩
        exact Nat.lt_succ_self i
      have hNone : ∀ s ∈ (none : Option Nat), s < i + 1 := by
        rintro s ⟨⟩
      rw [hDrop, List.zip_cons_cons]
      cases start with
      | none =>
          cases kind with
          | prose => exact hNext hHere
          | verbatim => exact hNext hNone
          | blank => exact hNext hNone
      | some s =>
          have hPos := hStart s rfl
          have hSub : sub i 1 = some (i - 1) :=
            sub_eq (by omega)
          cases kind with
          | prose =>
              have hKeep : ∀ t ∈ some s, t < i + 1 := by
                rintro t ⟨⟩
                exact Nat.lt_succ_of_lt hPos
              unfold unitsFrom Reflow.unitsFrom
              simp only [hLine, hSub, hPrev (by omega),
                Option.bind_eq_bind, Option.bind_some]
              by_cases hJoin : startsJoinBlock lines[i] prev = true
              · rw [if_pos hJoin, if_pos hJoin, hNext hHere]
                rfl
              · rw [if_neg hJoin, if_neg hJoin]
                exact hNext hKeep
          | verbatim =>
              unfold unitsFrom Reflow.unitsFrom
              rw [hSub, hNext hNone]
              rfl
          | blank =>
              unfold unitsFrom Reflow.unitsFrom
              rw [hSub, hNext hNone]
              rfl

theorem units_eq
    {kinds : List LineKind}
    (hLength : kinds.length = lines.length) :
    units kinds lines = some (Reflow.units kinds lines) := by
  unfold units
  rw [@unitsFrom_eq _ _ _ _ []
    (by rw [Nat.zero_add]; exact hLength)
    (fun hPos => absurd hPos (Nat.lt_irrefl 0))
    (by rintro s ⟨⟩)]
  rfl

end Reflow.Checked

------------------------------------------------------------
-- Windows Without A Fault
------------------------------------------------------------

namespace Reflow.Checked

variable {lowercase : Char → Bool} {cfg : DetectConfig}
  {lines : List Line} {lens : List Nat}

/- Lengths with their indices, from one index on. -/
theorem drop_take_zipIdx
    {i count : Nat}
    (hBound : i + count ≤ lens.length) :
    (lens.zipIdx.take (i + count)).drop i =
      (List.range' i count).map
        (fun j => (lens.getD j 0, j)) := by
  apply List.ext_getElem
  · simp only [List.length_drop, List.length_take,
      List.length_zipIdx, List.length_map, List.length_range']
    omega
  · intro j hLeft hRight
    rw [List.length_map, List.length_range'] at hRight
    have hIndex : i + j < lens.length := by omega
    simp [hIndex]

theorem foldlM_take
    (indices : List Nat)
    (range : Option (Nat × Nat))
    (hBound : ∀ j ∈ indices, j < lens.length) :
    (indices.map (fun j => (lens.getD j 0, j))).foldlM
        (take cfg lens (lens.length - 1)) range =
      some
        (((indices.filter (fun j => !isTail cfg lens j)).map
          (fun j => lens.getD j 0)).foldl extend range) := by
  induction indices generalizing range with
  | nil => rfl
  | cons j rest ih =>
      have hLt := hBound j List.mem_cons_self
      have hOwn : lens[j]? = some (lens.getD j 0) := by
        rw [List.getElem?_eq_getElem hLt,
          List.getD_eq_getElem?_getD,
          List.getElem?_eq_getElem hLt]
        rfl
      have hRest := fun range =>
        ih range (fun k hMem => hBound k (List.mem_cons_of_mem j hMem))
      rw [List.map_cons, List.foldlM_cons]
      unfold take
      simp only [hOwn, Option.bind_eq_bind, Option.bind_some]
      by_cases hTail : isTail cfg lens j = true
      · rw [List.filter_cons_of_neg (by simp [hTail])]
        unfold isTail at hTail
        rw [if_pos (of_decide_eq_true hTail)]
        exact hRest range
      · rw [List.filter_cons_of_pos (by simp [hTail])]
        unfold isTail at hTail
        rw [if_neg (fun h => hTail (decide_eq_true h))]
        exact hRest (extend range (lens.getD j 0))

/- The least of a range is no greater than its greatest. -/
theorem extend_le
    {range : Option (Nat × Nat)}
    (hRange : ∀ r ∈ range, r.1 ≤ r.2)
    (taken : List Nat) :
    ∀ r ∈ taken.foldl extend range, r.1 ≤ r.2 := by
  induction taken generalizing range with
  | nil => exact hRange
  | cons l rest ih =>
      apply ih
      intro r hMem
      unfold extend at hMem
      cases range with
      | none =>
          cases hMem
          exact Nat.le_refl l
      | some old =>
          cases hMem
          have hOld := hRange old rfl
          omega

/-
  The search takes no slice past the lines, and it takes one
  from a window's length where the window has a line.
-/
theorem windowAt_eq
    {pstart offset : Nat}
    (more len : Nat)
    (range : Option (Nat × Nat))
    (hPos : 0 < lens.length)
    (hRun : cfg.minRun ≤ len)
    (hFirst : len = cfg.minRun → range = none)
    (hRange : ∀ r ∈ range, r.1 ≤ r.2)
    (hLens : offset + (len + more) ≤ lens.length + 1)
    (hLines : pstart + lens.length ≤ lines.length) :
    windowAt lowercase cfg lines lens pstart offset more len
        range =
      some
        (Reflow.windowAt lowercase cfg lines lens pstart offset
          more len range) := by
  induction more generalizing len range with
  | zero => rfl
  | succ more ih =>
      have hUpto :
          (if len = cfg.minRun then some 0 else sub len 1) =
            some (if len = cfg.minRun then 0 else len - 1) := by
        split
        · rfl
        · rw [sub_eq (by omega)]
      have hUptoLe :
          (if len = cfg.minRun then 0 else len - 1) ≤ len := by
        split <;> omega
      have hEmpty :
          len = 0 →
            ∀ upto,
              (lengths cfg lens (offset + upto) (len - upto)).foldl
                extend range =
                none := by
        rintro rfl upto
        rw [Nat.zero_sub, hFirst (by omega)]
        rfl
      rw [windowAt_succ]
      unfold windowAt
      dsimp only
      rw [hUpto]
      generalize
        (if len = cfg.minRun then 0 else len - 1) = upto at *
      have hTaken :
          (lens.zipIdx.take (offset + len)).drop (offset + upto) =
            (List.range' (offset + upto) (len - upto)).map
              (fun j => (lens.getD j 0, j)) := by
        have hDrop :=
          @drop_take_zipIdx lens (offset + upto) (len - upto)
            (by omega)
        rwa [show offset + upto + (len - upto) = offset + len by
          omega] at hDrop
      have hFold :
          ((lens.zipIdx.take (offset + len)).drop
              (offset + upto)).foldlM
              (take cfg lens (lens.length - 1)) range =
            some
              ((lengths cfg lens (offset + upto)
                (len - upto)).foldl extend range) := by
        rw [hTaken]
        apply foldlM_take
        intro j hMem
        have hIndex := List.mem_range'_1.mp hMem
        omega
      have hOrdered :=
        extend_le hRange
          (lengths cfg lens (offset + upto) (len - upto))
      have hPositive := fun hZero => hEmpty hZero upto
      simp only [Option.bind_eq_bind, Option.bind_some,
        sub_eq hPos, hFold]
      generalize
        (lengths cfg lens (offset + upto) (len - upto)).foldl
          extend range = new at *
      have hNext :=
        ih (len + 1) new (Nat.le_succ_of_le hRun)
          (fun hSame => by omega) hOrdered (by omega)
      cases new with
      | none => exact hNext
      | some range =>
          rcases range with ⟨lo, hi⟩
          have hLo : lo ≤ hi := hOrdered (lo, hi) rfl
          have hLen : 1 ≤ len := by
            by_contra hZero
            have hNone := hPositive (by omega)
            cases hNone
          dsimp only
          rw [sub_eq hLo, Option.bind_some]
          by_cases hBand : inBand cfg (lo, hi) = true
          · rw [if_pos hBand, if_neg, slice_eq (by omega),
              Option.bind_some, sub_eq hLen, Option.bind_some]
            · by_cases hEnough :
                  min cfg.minMidBreaks (len - 1) ≤
                    breaksIn lowercase lines (pstart + offset) len
              · rw [if_pos hEnough]
                exact if_pos hEnough
              · rw [if_neg hEnough, ← hNext]
                exact if_neg hEnough
            · simp only [inBand, decide_eq_true_eq] at hBand
              omega
          · rw [if_neg hBand, if_pos]
            simp only [inBand, decide_eq_true_eq] at hBand
            omega

/- Every offset is within the unit. -/
theorem search_eq
    {pstart : Nat}
    {offsets : List Nat}
    (hPos : 0 < lens.length)
    (hLines : pstart + lens.length ≤ lines.length)
    (hOffsets : ∀ offset ∈ offsets, offset + cfg.minRun ≤ lens.length) :
    search lowercase cfg lines lens pstart offsets =
      some
        (offsets.findSome?
          (fun offset =>
            Reflow.windowAt lowercase cfg lines lens pstart offset
              (lens.length - offset + 1 - cfg.minRun) cfg.minRun
              none)) := by
  induction offsets with
  | nil => rfl
  | cons offset rest ih =>
      have hOffset := hOffsets offset List.mem_cons_self
      have hRest :=
        ih (fun o hMem => hOffsets o (List.mem_cons_of_mem offset hMem))
      have hWindow :=
        @windowAt_eq lowercase cfg lines lens pstart offset
          (lens.length - offset + 1 - cfg.minRun) cfg.minRun none
          hPos (Nat.le_refl _) (fun _ => rfl) (by rintro r ⟨⟩)
          (by omega) hLines
      unfold search
      rw [sub_eq (by omega), List.findSome?_cons]
      simp only [Option.bind_eq_bind, Option.bind_some, hWindow]
      cases Reflow.windowAt lowercase cfg lines lens pstart offset
          (lens.length - offset + 1 - cfg.minRun) cfg.minRun
          none with
      | none => exact hRest
      | some w => rfl

theorem firstWindow_eq
    {unit : Nat × Nat}
    (hOrder : unit.1 < unit.2)
    (hBound : unit.2 < lines.length) :
    firstWindow lowercase cfg lines unit =
      some (Reflow.firstWindow lowercase cfg lines unit) := by
  unfold firstWindow Reflow.firstWindow
  dsimp only
  rw [sub_eq (Nat.le_of_lt hOrder)]
  simp only [Option.bind_eq_bind, Option.bind_some]
  by_cases hShort : unit.2 - unit.1 + 1 < cfg.minRun
  · rw [if_pos hShort, if_pos hShort]
  · have hSlice :
        slice lines unit.1 (unit.2 + 1) =
          some ((lines.drop unit.1).take (unit.2 - unit.1 + 1)) := by
      have hEnd : unit.2 + 1 = unit.1 + (unit.2 - unit.1 + 1) := by
        omega
      rw [hEnd, slice_eq (by omega)]
    have hLength := @length_unitLens lines unit hOrder hBound
    have hSearch :=
      @search_eq lowercase cfg lines (unitLens lines unit) unit.1
        (List.range (unit.2 - unit.1 + 1 - cfg.minRun + 1))
        (by omega) (by omega) (by
          intro offset hMem
          have hLt := List.mem_range.mp hMem
          omega)
    rw [if_neg hShort, if_neg hShort, hSlice, Option.bind_some,
      sub_eq (Nat.not_lt.mp hShort), Option.bind_some]
    unfold unitLens at hSearch hLength
    rw [hSearch, hLength]
    rfl

/- No input and no configuration reaches a fault. -/
theorem detectWith_eq
    (lowercase : Char → Bool)
    (cfg : DetectConfig)
    (lines : List Line)
    (isOpaque : List Bool) :
    detectWith lowercase cfg lines isOpaque =
      some (Reflow.detectWith lowercase isOpaque lines cfg) := by
  have hUnits := (units_spec isOpaque lines).1
  unfold detectWith Reflow.detectWith
  rw [units_eq (length_classify isOpaque lines)]
  simp only [Option.bind_eq_bind, Option.bind_some]
  generalize Reflow.units (classify isOpaque lines) lines = spans
    at *
  have hFound :
      spans.mapM (firstWindow lowercase cfg lines) =
        some (spans.map (Reflow.firstWindow lowercase cfg lines)) := by
    induction spans with
    | nil => rfl
    | cons unit rest ih =>
        have hUnit := hUnits unit List.mem_cons_self
        rw [List.mapM_cons, firstWindow_eq hUnit.lt hUnit.bound,
          ih (fun u hMem => hUnits u (List.mem_cons_of_mem unit hMem))]
        rfl
  rw [hFound, Option.bind_some, List.reduceOption,
    List.filterMap_map]
  rfl

end Reflow.Checked

------------------------------------------------------------
-- The Units Found
------------------------------------------------------------

namespace Reflow

/-
  The units that are found: those with a window that
  qualifies, in their order, each with its first window.
-/
structure FindsWindows
    (lowercase : Char → Bool)
    (cfg : DetectConfig)
    (lines : List Line)
    (units : List (Nat × Nat))
    (found : List WrappedParagraph) : Prop where
  spans : (found.map (fun w => (w.start, w.stop))).Sublist units
  complete :
    ∀ unit ∈ units,
      (∃ w ∈ found, (w.start, w.stop) = unit) ↔
        ∃ s len, Qualifies lowercase cfg lines unit s len
  first :
    ∀ w ∈ found,
      IsFirst lowercase cfg lines (w.start, w.stop)
        w.triggerStart w.triggerLen
  mids :
    ∀ w ∈ found,
      w.midBreaks =
        breaksIn lowercase lines w.triggerStart w.triggerLen

theorem findsWindows_filterMap
    {lowercase : Char → Bool}
    {cfg : DetectConfig}
    {lines : List Line}
    {units : List (Nat × Nat)}
    (hUnits :
      ∀ unit ∈ units, unit.1 < unit.2 ∧ unit.2 < lines.length) :
    FindsWindows lowercase cfg lines units
      (units.filterMap (firstWindow lowercase cfg lines)) where
  spans := by
    induction units with
    | nil => exact List.Sublist.refl []
    | cons unit rest ih =>
        have hRest :=
          ih (fun u hMem => hUnits u (List.mem_cons_of_mem unit hMem))
        cases hWindow : firstWindow lowercase cfg lines unit with
        | none =>
            rw [List.filterMap_cons_none hWindow]
            exact hRest.cons unit
        | some w =>
            rw [List.filterMap_cons_some hWindow, List.map_cons,
              ← firstWindow_span hWindow]
            exact hRest.cons_cons unit
  complete unit hMem := by
    have hUnit := hUnits unit hMem
    have hNone :=
      @firstWindow_eq_none_iff lowercase cfg _ _ hUnit.1 hUnit.2
    constructor
    · rintro ⟨w, hFound, hSpan⟩
      rcases List.mem_filterMap.mp hFound with ⟨u, -, hWindow⟩
      rw [← firstWindow_span hWindow] at hSpan
      rw [hSpan] at hWindow
      by_contra hNot
      rw [hNone.mpr hNot] at hWindow
      cases hWindow
    · intro hSome
      cases hWindow : firstWindow lowercase cfg lines unit with
      | none => exact absurd hSome (hNone.mp hWindow)
      | some w =>
          exact
            ⟨w, List.mem_filterMap.mpr ⟨unit, hMem, hWindow⟩,
              (firstWindow_span hWindow).symm⟩
  first w hMem := by
    rcases List.mem_filterMap.mp hMem with ⟨unit, hIn, hWindow⟩
    have hUnit := hUnits unit hIn
    rw [← firstWindow_span hWindow]
    exact (isFirst_of_firstWindow hUnit.1 hUnit.2 hWindow).1
  mids w hMem := by
    rcases List.mem_filterMap.mp hMem with ⟨unit, hIn, hWindow⟩
    have hUnit := hUnits unit hIn
    exact (isFirst_of_firstWindow hUnit.1 hUnit.2 hWindow).2

/-
  The detector faults on no input and with no configuration,
  and it finds the units with a window that qualifies.
-/
theorem detectWith_finds
    (lowercase : Char → Bool)
    (isOpaque : List Bool)
    (lines : List Line)
    (cfg : DetectConfig) :
    Checked.detectWith lowercase cfg lines isOpaque =
        some (detectWith lowercase isOpaque lines cfg) ∧
      FindsWindows lowercase cfg lines
        (units (classify isOpaque lines) lines)
        (detectWith lowercase isOpaque lines cfg) := by
  refine ⟨Checked.detectWith_eq lowercase cfg lines isOpaque, ?_⟩
  apply findsWindows_filterMap
  intro unit hMem
  have hUnit := (units_spec isOpaque lines).1 unit hMem
  exact ⟨hUnit.lt, hUnit.bound⟩

end Reflow
