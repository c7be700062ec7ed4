import Mathlib.Data.List.Basic
import Mathlib.Order.Basic
import Mathlib.Order.Nat

/-
  Spans of positions in a text: spans that follow each other,
  spans inside spans, spans that keep apart, and what is left
  of a text when spans are cut from it.

  Key definitions include:
    * `Span`
    * `Span.Runs`
    * `Span.Clear`
    * `Span.kept`

  Main declarations:
    * `Span.Runs.append`
    * `Span.Runs.bounds`
    * `Span.kept_append`
    * `Span.kept_cons`
    * `Span.length_kept`
-/

------------------------------------------------------------
-- Spans
------------------------------------------------------------

/- The positions from one up to another, that one left out. -/
structure Span where
  start : Nat
  stop : Nat
deriving DecidableEq, Repr

namespace Span

def Inside
    (a b : Span) : Prop :=
  b.start ≤ a.start ∧ a.stop ≤ b.stop

def Before
    (a b : Span) : Prop :=
  a.stop ≤ b.start

def Apart
    (a b : Span) : Prop :=
  a.Before b ∨ b.Before a

/- A span does not cut into another. -/
def Clear
    (a b : Span) : Prop :=
  a.Apart b ∨ a.Inside b

theorem Inside.trans
    {a b c : Span}
    (hAB : a.Inside b)
    (hBC : b.Inside c) :
    a.Inside c :=
  ⟨hBC.1.trans hAB.1, hAB.2.trans hBC.2⟩

/- Spans that follow each other between two positions. -/
def Runs : Nat → List Span → Nat → Prop
| lo, [], hi => lo ≤ hi
| lo, s :: rest, hi =>
    lo ≤ s.start ∧ s.start ≤ s.stop ∧ Runs s.stop rest hi

namespace Runs

theorem le
    {lo hi : Nat}
    {spans : List Span}
    (hRuns : Runs lo spans hi) :
    lo ≤ hi := by
  induction spans generalizing lo with
  | nil => exact hRuns
  | cons s rest ih =>
      obtain ⟨hLo, hSpan, hRest⟩ := hRuns
      exact hLo.trans (hSpan.trans (ih hRest))

theorem mono
    {lo lo' hi hi' : Nat}
    {spans : List Span}
    (hRuns : Runs lo spans hi)
    (hLo : lo' ≤ lo)
    (hHi : hi ≤ hi') :
    Runs lo' spans hi' := by
  induction spans generalizing lo lo' with
  | nil => exact hLo.trans (hRuns.le.trans hHi)
  | cons s rest ih =>
      obtain ⟨hStart, hSpan, hRest⟩ := hRuns
      exact ⟨hLo.trans hStart, hSpan, ih hRest le_rfl⟩

theorem append
    {lo mid hi : Nat}
    {spans more : List Span}
    (hRuns : Runs lo spans mid)
    (hMore : Runs mid more hi) :
    Runs lo (spans ++ more) hi := by
  induction spans generalizing lo with
  | nil => exact hMore.mono hRuns le_rfl
  | cons s rest ih =>
      obtain ⟨hStart, hSpan, hRest⟩ := hRuns
      exact ⟨hStart, hSpan, ih hRest⟩

theorem split
    {lo hi : Nat}
    {spans more : List Span}
    (hRuns : Runs lo (spans ++ more) hi) :
    ∃ mid, Runs lo spans mid ∧ Runs mid more hi := by
  induction spans generalizing lo with
  | nil => exact ⟨lo, show lo ≤ lo from le_rfl, hRuns⟩
  | cons s rest ih =>
      obtain ⟨hStart, hSpan, hRest⟩ := hRuns
      obtain ⟨mid, hHead, hTail⟩ := ih hRest
      exact ⟨mid, ⟨hStart, hSpan, hHead⟩, hTail⟩

/- One more span at the end. -/
theorem snoc
    {lo hi hi' : Nat}
    {spans : List Span}
    {s : Span}
    (hRuns : Runs lo spans hi)
    (hStart : hi ≤ s.start)
    (hSpan : s.start ≤ s.stop)
    (hStop : s.stop ≤ hi') :
    Runs lo (spans ++ [s]) hi' :=
  hRuns.append ⟨hStart, hSpan, hStop⟩

/- The last span reaches to its own start, or further. -/
theorem last
    {lo hi : Nat}
    {spans : List Span}
    {s : Span}
    (hRuns : Runs lo (spans ++ [s]) hi) :
    Runs lo spans s.start ∧ s.start ≤ s.stop ∧ s.stop ≤ hi := by
  obtain ⟨mid, hHead, hStart, hSpan, hStop⟩ := hRuns.split
  exact ⟨hHead.mono le_rfl hStart, hSpan, hStop⟩

theorem bounds
    {lo hi : Nat}
    {spans : List Span}
    {s : Span}
    (hRuns : Runs lo spans hi)
    (hIn : s ∈ spans) :
    lo ≤ s.start ∧ s.start ≤ s.stop ∧ s.stop ≤ hi := by
  obtain ⟨front, back, rfl⟩ := List.append_of_mem hIn
  obtain ⟨mid, hHead, hStart, hSpan, hRest⟩ := hRuns.split
  exact ⟨hHead.le.trans hStart, hSpan, hRest.le⟩

theorem sublist
    {lo hi : Nat}
    {spans few : List Span}
    (hRuns : Runs lo spans hi)
    (hSub : few.Sublist spans) :
    Runs lo few hi := by
  induction hSub generalizing lo with
  | slnil => exact hRuns
  | cons s _ ih =>
      obtain ⟨hStart, hSpan, hRest⟩ := hRuns
      exact (ih hRest).mono (hStart.trans hSpan) le_rfl
  | cons_cons s _ ih =>
      obtain ⟨hStart, hSpan, hRest⟩ := hRuns
      exact ⟨hStart, hSpan, ih hRest⟩

theorem pairwise
    {lo hi : Nat}
    {spans : List Span}
    (hRuns : Runs lo spans hi) :
    spans.Pairwise Before := by
  induction spans generalizing lo with
  | nil => exact .nil
  | cons s rest ih =>
      obtain ⟨hStart, hSpan, hRest⟩ := hRuns
      refine .cons (fun t hIn => ?_) (ih hRest)
      exact (hRest.bounds hIn).1

end Runs

------------------------------------------------------------
-- Cutting
------------------------------------------------------------

def outside
    (spans : List Span)
    (i : Nat) : Bool :=
  spans.all fun e => i < e.start || e.stop ≤ i

/- The positions between two that no span takes. -/
def keptAt
    (spans : List Span)
    (lo hi : Nat) : List Nat :=
  (List.range' lo (hi - lo)).filter (outside spans)

/- What is left of a text between two positions. -/
def kept
    {α : Type}
    (xs : List α)
    (spans : List Span)
    (lo hi : Nat) : List α :=
  (keptAt spans lo hi).filterMap fun i => xs[i]?

theorem keptAt_append
    (spans : List Span)
    {lo mid hi : Nat}
    (hLo : lo ≤ mid)
    (hHi : mid ≤ hi) :
    keptAt spans lo hi =
      keptAt spans lo mid ++ keptAt spans mid hi := by
  have hRange :
      List.range' lo (hi - lo) =
        List.range' lo (mid - lo) ++
          List.range' mid (hi - mid) := by
    have hSize : hi - lo = (mid - lo) + (hi - mid) := by omega
    have hMid : lo + (mid - lo) = mid := by omega
    rw [hSize, ← List.range'_append_1, hMid]
  unfold keptAt
  rw [hRange, List.filter_append]

theorem kept_append
    {α : Type}
    (xs : List α)
    (spans : List Span)
    {lo mid hi : Nat}
    (hLo : lo ≤ mid)
    (hHi : mid ≤ hi) :
    kept xs spans lo hi =
      kept xs spans lo mid ++ kept xs spans mid hi := by
  unfold kept
  rw [keptAt_append spans hLo hHi, List.filterMap_append]

/- Spans that take the same positions leave the same. -/
theorem keptAt_congr
    {spans more : List Span}
    {lo hi : Nat}
    (hSame :
      ∀ i, lo ≤ i → i < hi → outside spans i = outside more i) :
    keptAt spans lo hi = keptAt more lo hi := by
  unfold keptAt
  apply List.filter_congr
  intro i hIn
  rw [List.mem_range'_1] at hIn
  exact hSame i hIn.1 (by omega)

theorem keptAt_all
    {spans : List Span}
    {lo hi : Nat}
    (hOut : ∀ i, lo ≤ i → i < hi → outside spans i = true) :
    keptAt spans lo hi = List.range' lo (hi - lo) := by
  unfold keptAt
  rw [List.filter_eq_self]
  intro i hIn
  rw [List.mem_range'_1] at hIn
  exact hOut i hIn.1 (by omega)

theorem keptAt_none
    {spans : List Span}
    {lo hi : Nat}
    (hIn : ∀ i, lo ≤ i → i < hi → outside spans i = false) :
    keptAt spans lo hi = [] := by
  unfold keptAt
  rw [List.filter_eq_nil_iff]
  intro i hMem
  rw [List.mem_range'_1] at hMem
  rw [hIn i hMem.1 (by omega)]
  exact Bool.false_ne_true

theorem outside_cons
    {e : Span}
    {rest : List Span}
    {i : Nat} :
    outside (e :: rest) i =
      ((i < e.start || e.stop ≤ i) && outside rest i) :=
  rfl

theorem outside_of_lt
    {spans : List Span}
    {lo hi i : Nat}
    (hRuns : Runs lo spans hi)
    (hLt : i < lo) :
    outside spans i = true := by
  unfold outside
  rw [List.all_eq_true]
  intro e hE
  simp only [Bool.or_eq_true, decide_eq_true_eq]
  exact .inl (hLt.trans_le (hRuns.bounds hE).1)

/- A span takes what is in it, of spans that run on from it. -/
theorem keptAt_cons
    {e : Span}
    {rest : List Span}
    {far lo hi : Nat}
    (hSpan : e.start ≤ e.stop)
    (hRest : Runs e.stop rest far)
    (hLo : lo ≤ e.stop)
    (hHi : e.start ≤ hi)
    (hLe : lo ≤ hi) :
    keptAt (e :: rest) lo hi =
      List.range' lo (max lo e.start - lo) ++
        keptAt rest (min e.stop hi) hi := by
  rw [keptAt_append (e :: rest) (le_max_left lo e.start)
    (max_le hLe hHi),
    keptAt_append (e :: rest)
      (show max lo e.start ≤ max (max lo e.start)
        (min e.stop hi) from le_max_left _ _)
      (show max (max lo e.start) (min e.stop hi) ≤ hi by omega)]
  have hMid :
      max (max lo e.start) (min e.stop hi) = min e.stop hi := by
    omega
  rw [hMid]
  have hFirst :
      keptAt (e :: rest) lo (max lo e.start) =
        List.range' lo (max lo e.start - lo) := by
    apply keptAt_all
    intro i hI hLt
    rw [outside_cons, outside_of_lt hRest (by omega)]
    simp only [Bool.and_true, Bool.or_eq_true,
      decide_eq_true_eq]
    omega
  have hTaken :
      keptAt (e :: rest) (max lo e.start) (min e.stop hi) =
        [] := by
    apply keptAt_none
    intro i hI hLt
    rw [outside_cons]
    have hNot :
        (decide (i < e.start) || decide (e.stop ≤ i)) =
          false := by
      simp only [Bool.or_eq_false_iff, decide_eq_false_iff_not]
      omega
    rw [hNot, Bool.false_and]
  have hLast :
      keptAt (e :: rest) (min e.stop hi) hi =
        keptAt rest (min e.stop hi) hi := by
    apply keptAt_congr
    intro i hI hLt
    rw [outside_cons]
    have hPast :
        (decide (i < e.start) || decide (e.stop ≤ i)) =
          true := by
      simp only [Bool.or_eq_true, decide_eq_true_eq]
      omega
    rw [hPast, Bool.true_and]
  rw [hFirst, hTaken, hLast, List.nil_append]

/- A span that takes nothing between the two. -/
theorem keptAt_cons_apart
    {e : Span}
    {rest : List Span}
    {lo hi : Nat}
    (hApart : e.stop ≤ lo ∨ hi ≤ e.start) :
    keptAt (e :: rest) lo hi = keptAt rest lo hi := by
  apply keptAt_congr
  intro i hI hLt
  rw [outside_cons]
  have hOut :
      (decide (i < e.start) || decide (e.stop ≤ i)) = true := by
    simp only [Bool.or_eq_true, decide_eq_true_eq]
    omega
  rw [hOut, Bool.true_and]

/- The characters of a text at the positions of a range. -/
theorem filterMap_range'
    {α : Type}
    (xs : List α)
    {lo n : Nat}
    (hLen : lo + n ≤ xs.length) :
    (List.range' lo n).filterMap (fun i => xs[i]?) =
      (xs.take (lo + n)).drop lo := by
  induction n generalizing lo with
  | zero => simp
  | succ n ih =>
      have hLt : lo < xs.length := by omega
      have hLt' : lo < (xs.take (lo + (n + 1))).length := by
        rw [List.length_take]
        omega
      have hTail := @ih (lo + 1) (by omega)
      have hSame : lo + 1 + n = lo + (n + 1) := by omega
      rw [hSame] at hTail
      rw [List.range'_succ, List.filterMap_cons,
        List.getElem?_eq_getElem hLt]
      simp only
      rw [hTail, List.drop_eq_getElem_cons hLt',
        List.getElem_take]

theorem length_kept
    {α : Type}
    {xs : List α}
    {spans : List Span}
    {lo hi : Nat}
    (hLen : hi ≤ xs.length) :
    (kept xs spans lo hi).length =
      (keptAt spans lo hi).length := by
  have hAll :
      ∀ is : List Nat, (∀ i ∈ is, i < xs.length) →
        (is.filterMap fun i => xs[i]?).length = is.length := by
    intro is hIs
    induction is with
    | nil => rfl
    | cons i rest ih =>
        have hI := hIs i List.mem_cons_self
        rw [List.filterMap_cons, List.getElem?_eq_getElem hI]
        simp only [List.length_cons]
        rw [ih fun j hJ => hIs j (List.mem_cons_of_mem i hJ)]
  apply hAll
  intro i hIn
  have hRange := (List.mem_filter.mp hIn).1
  rw [List.mem_range'_1] at hRange
  omega

end Span
