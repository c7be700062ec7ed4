import Mathlib.Data.List.Basic
import Mathlib.Tactic.Common

/-
  Runs of a deterministic step machine.

  A machine answers each input with a new state and an
  output. A run is a list of inputs, and its trace records
  every turn: the state before, the input, the state after
  and the output. The rules below lift a fact about one
  turn to every turn of every run.

  Key definitions include:
    * `StepMachine`
    * `StepMachine.Turn`
    * `StepMachine.trace`
    * `StepMachine.final`

  The run rules are:
    * `StepMachine.invariant_of_mem_trace`
    * `StepMachine.logged_final`
    * `StepMachine.timed_invariant_of_mem_trace`
    * `StepMachine.countP_le_one_of_spent`
    * `StepMachine.countP_le_of_potential`
    * `StepMachine.invariant_between`
    * `StepMachine.timed_invariant_between`
    * `StepMachine.trace_eq_append_cons`
    * `StepMachine.simulates_final`
    * `StepMachine.simulates_trace`
    * `StepMachine.last_write`
-/

------------------------------------------------------------
-- Machines And Traces
------------------------------------------------------------

/- A machine that answers each input with an output. -/
structure StepMachine (S I O : Type) where
  step : S → I → S × O

namespace StepMachine

variable {S I O : Type}

/- One turn of a run. -/
structure Turn (S I O : Type) where
  before : S
  input : I
  after : S
  output : O

/- The turn a machine takes on one input. -/
def turn
    (m : StepMachine S I O)
    (s : S)
    (i : I) : Turn S I O :=
  { before := s
    input := i
    after := (m.step s i).1
    output := (m.step s i).2 }

/- Every turn of a run, in order. -/
def trace
    (m : StepMachine S I O)
    (s : S) : List I → List (Turn S I O)
| [] => []
| i :: rest =>
    m.turn s i :: m.trace (m.step s i).1 rest

/- The state a run ends in. -/
def final
    (m : StepMachine S I O)
    (s : S) : List I → S
| [] => s
| i :: rest => m.final (m.step s i).1 rest

@[simp] theorem trace_nil
    (m : StepMachine S I O)
    (s : S) :
    m.trace s [] = [] := rfl

@[simp] theorem trace_cons
    (m : StepMachine S I O)
    (s : S)
    (i : I)
    (rest : List I) :
    m.trace s (i :: rest) =
      m.turn s i :: m.trace (m.step s i).1 rest := rfl

@[simp] theorem final_nil
    (m : StepMachine S I O)
    (s : S) :
    m.final s [] = s := rfl

@[simp] theorem final_cons
    (m : StepMachine S I O)
    (s : S)
    (i : I)
    (rest : List I) :
    m.final s (i :: rest) =
      m.final (m.step s i).1 rest := rfl

/- A run in two parts is traced part by part. -/
theorem trace_append
    (m : StepMachine S I O)
    (s : S)
    (first second : List I) :
    m.trace s (first ++ second) =
      m.trace s first ++
        m.trace (m.final s first) second := by
  induction first generalizing s with
  | nil => rfl
  | cons i rest ih => simp [ih]

theorem final_append
    (m : StepMachine S I O)
    (s : S)
    (first second : List I) :
    m.final s (first ++ second) =
      m.final (m.final s first) second := by
  induction first generalizing s with
  | nil => rfl
  | cons i rest ih => simp [ih]

/- The turns of a trace are the machine's own. -/
theorem eq_turn_of_mem_trace
    {m : StepMachine S I O}
    {s : S}
    {inputs : List I}
    {t : Turn S I O}
    (hMem : t ∈ m.trace s inputs) :
    t = m.turn t.before t.input := by
  induction inputs generalizing s with
  | nil => simp at hMem
  | cons i rest ih =>
      rcases List.mem_cons.mp hMem with hHead | hTail
      · subst hHead
        rfl
      · exact ih hTail

/- The inputs of a trace are those of the run. -/
theorem map_input_trace
    (m : StepMachine S I O)
    (s : S)
    (inputs : List I) :
    (m.trace s inputs).map Turn.input = inputs := by
  induction inputs generalizing s with
  | nil => rfl
  | cons i rest ih => simp [turn, ih]

theorem input_mem_of_mem_trace
    {m : StepMachine S I O}
    {s : S}
    {inputs : List I}
    {t : Turn S I O}
    (hMem : t ∈ m.trace s inputs) :
    t.input ∈ inputs := by
  rw [← map_input_trace m s inputs]
  exact List.mem_map_of_mem hMem

/-
  A trace cut at one of its turns: what comes before is the
  trace of the earlier inputs, and what comes after is the
  trace of the later ones from the state the turn left.
-/
theorem trace_eq_append_cons
    {m : StepMachine S I O}
    {s : S}
    {inputs : List I}
    {earlier later : List (Turn S I O)}
    {t : Turn S I O}
    (hTrace : m.trace s inputs = earlier ++ t :: later) :
    ∃ first second,
      inputs = first ++ t.input :: second ∧
        earlier = m.trace s first ∧
        t = m.turn (m.final s first) t.input ∧
        later = m.trace t.after second := by
  induction earlier generalizing s inputs with
  | nil =>
      cases inputs with
      | nil => simp at hTrace
      | cons i rest =>
          simp only [trace_cons, List.nil_append,
            List.cons.injEq] at hTrace
          rcases hTrace with ⟨rfl, rfl⟩
          exact ⟨[], rest, rfl, rfl, rfl, rfl⟩
  | cons head earlier ih =>
      cases inputs with
      | nil => simp at hTrace
      | cons i rest =>
          simp only [trace_cons, List.cons_append,
            List.cons.injEq] at hTrace
          rcases hTrace with ⟨rfl, hRest⟩
          rcases ih hRest with
            ⟨first, second, rfl, rfl, hTurn, hLater⟩
          exact ⟨i :: first, second, rfl, rfl, hTurn, hLater⟩

/-
  The turns from one turn of a trace to a later one are the
  trace of their own inputs.
-/
theorem trace_between
    {m : StepMachine S I O}
    {s : S}
    {inputs : List I}
    {earlier middle later : List (Turn S I O)}
    {a b : Turn S I O}
    (hTrace :
      m.trace s inputs =
        earlier ++ a :: (middle ++ b :: later)) :
    ∃ between,
      m.trace a.after between = middle ++ [b] ∧
        (a.input :: between).Sublist inputs := by
  rcases trace_eq_append_cons hTrace with
    ⟨first, second, rfl, _, _, hLater⟩
  rcases trace_eq_append_cons hLater.symm with
    ⟨third, fourth, rfl, rfl, hTurn, _⟩
  refine ⟨third ++ [b.input], ?_, ?_⟩
  · rw [trace_append, trace_cons, trace_nil, ← hTurn]
  · apply List.Sublist.trans _
      (List.sublist_append_right first _)
    apply List.Sublist.cons_cons
    apply List.Sublist.append_left
    simp

end StepMachine

------------------------------------------------------------
-- Run Rules
------------------------------------------------------------

namespace StepMachine

variable {S I O : Type}

/-
  The invariant rule. When every turn the run takes meets
  `Ok`, and such a turn preserves `Inv`, every turn starts
  and ends in `Inv`.
-/
theorem invariant_of_mem_trace
    {m : StepMachine S I O}
    (Inv : S → Prop)
    (Ok : S → I → Prop)
    (hStep :
      ∀ s i, Inv s → Ok s i → Inv (m.step s i).1)
    {s : S}
    {inputs : List I}
    (hOk :
      ∀ t ∈ m.trace s inputs, Ok t.before t.input)
    (hInit : Inv s)
    {t : Turn S I O}
    (hMem : t ∈ m.trace s inputs) :
    Inv t.before ∧ Inv t.after := by
  induction inputs generalizing s with
  | nil => simp at hMem
  | cons i rest ih =>
      have hNext : Inv (m.step s i).1 :=
        hStep s i hInit
          (hOk (m.turn s i) (by simp))
      rcases List.mem_cons.mp hMem with hHead | hTail
      · subst hHead
        exact ⟨hInit, hNext⟩
      · exact ih
          (fun t ht => hOk t (List.mem_cons_of_mem _ ht))
          hNext hTail

/- The state a run ends in meets the invariant too. -/
theorem invariant_final
    {m : StepMachine S I O}
    (Inv : S → Prop)
    (Ok : S → I → Prop)
    (hStep :
      ∀ s i, Inv s → Ok s i → Inv (m.step s i).1)
    {s : S}
    {inputs : List I}
    (hOk :
      ∀ t ∈ m.trace s inputs, Ok t.before t.input)
    (hInit : Inv s) :
    Inv (m.final s inputs) := by
  induction inputs generalizing s with
  | nil => exact hInit
  | cons i rest ih =>
      exact ih
        (fun t ht => hOk t (List.mem_cons_of_mem _ ht))
        (hStep s i hInit (hOk (m.turn s i) (by simp)))

/-
  The invariant rule with a log. The invariant may speak of
  what the turns so far have noted, in order.
-/
theorem logged_final
    {α : Type}
    {m : StepMachine S I O}
    (note : S → I → Option α)
    (Inv : List α → S → Prop)
    (Ok : S → I → Prop)
    (hStep :
      ∀ log s i, Inv log s → Ok s i →
        Inv (log ++ (note s i).toList) (m.step s i).1)
    {s : S}
    {inputs : List I}
    (hOk :
      ∀ t ∈ m.trace s inputs, Ok t.before t.input)
    (hInit : Inv [] s) :
    Inv
      ((m.trace s inputs).filterMap
        (fun t => note t.before t.input))
      (m.final s inputs) := by
  have hFrom :
      ∀ log s,
        (∀ t ∈ m.trace s inputs, Ok t.before t.input) →
          Inv log s →
            Inv
              (log ++
                (m.trace s inputs).filterMap
                  (fun t => note t.before t.input))
              (m.final s inputs) := by
    clear hOk hInit s
    induction inputs with
    | nil =>
        intro log s hOk hInit
        simpa using hInit
    | cons i rest ih =>
        intro log s hOk hInit
        have hNext :=
          ih _ (m.step s i).1
            (fun t ht => hOk t (List.mem_cons_of_mem _ ht))
            (hStep log s i hInit (hOk (m.turn s i) (by simp)))
        rw [List.append_assoc] at hNext
        cases hNote : note s i <;>
          simpa [hNote, turn, List.filterMap_cons] using hNext
  exact hFrom [] s hOk hInit

/-
  The invariant rule under a clock. The invariant may speak
  of the time of the last input; inputs come in time order.
-/
theorem timed_invariant_of_mem_trace
    {m : StepMachine S I O}
    (time : I → Nat)
    (Inv : Nat → S → Prop)
    (Ok : S → I → Prop)
    (hStep :
      ∀ now s i, Inv now s → now ≤ time i → Ok s i →
        Inv (time i) (m.step s i).1)
    {now : Nat}
    {s : S}
    {inputs : List I}
    (hOk :
      ∀ t ∈ m.trace s inputs, Ok t.before t.input)
    (hClock : (now :: inputs.map time).Pairwise (· ≤ ·))
    (hInit : Inv now s)
    {t : Turn S I O}
    (hMem : t ∈ m.trace s inputs) :
    ∃ past, past ≤ time t.input ∧ Inv past t.before := by
  induction inputs generalizing now s with
  | nil => simp at hMem
  | cons i rest ih =>
      rw [List.map_cons, List.pairwise_cons] at hClock
      have hNow : now ≤ time i :=
        hClock.1 _ (by simp)
      rcases List.mem_cons.mp hMem with hHead | hTail
      · subst hHead
        exact ⟨now, hNow, hInit⟩
      · exact ih
          (fun t ht => hOk t (List.mem_cons_of_mem _ ht))
          hClock.2
          (hStep now s i hInit hNow
            (hOk (m.turn s i) (by simp)))
          hTail

/- The invariant rule from one turn to a later one. -/
theorem invariant_between
    {m : StepMachine S I O}
    (Inv : S → Prop)
    (Ok : S → I → Prop)
    (hStep :
      ∀ s i, Inv s → Ok s i → Inv (m.step s i).1)
    {s : S}
    {inputs : List I}
    {earlier middle later : List (Turn S I O)}
    {a b : Turn S I O}
    (hTrace :
      m.trace s inputs =
        earlier ++ a :: (middle ++ b :: later))
    (hOk : ∀ t ∈ middle ++ [b], Ok t.before t.input)
    (hStart : Inv a.after) :
    Inv b.before := by
  rcases trace_between hTrace with ⟨between, hBetween, -⟩
  rw [← hBetween] at hOk
  have hMem : b ∈ m.trace a.after between := by
    rw [hBetween]
    simp
  exact
    (invariant_of_mem_trace Inv Ok hStep hOk hStart hMem).1

/- The same under a clock. -/
theorem timed_invariant_between
    {m : StepMachine S I O}
    (time : I → Nat)
    (Inv : Nat → S → Prop)
    (Ok : S → I → Prop)
    (hStep :
      ∀ now s i, Inv now s → now ≤ time i → Ok s i →
        Inv (time i) (m.step s i).1)
    {s : S}
    {inputs : List I}
    {earlier middle later : List (Turn S I O)}
    {a b : Turn S I O}
    (hTrace :
      m.trace s inputs =
        earlier ++ a :: (middle ++ b :: later))
    (hClock : (inputs.map time).Pairwise (· ≤ ·))
    (hOk : ∀ t ∈ middle ++ [b], Ok t.before t.input)
    (hStart : Inv (time a.input) a.after) :
    ∃ past, past ≤ time b.input ∧ Inv past b.before := by
  rcases trace_between hTrace with
    ⟨between, hBetween, hSublist⟩
  rw [← hBetween] at hOk
  have hLaterClock :
      (time a.input :: between.map time).Pairwise (· ≤ ·) :=
    hClock.sublist (hSublist.map time)
  have hMem : b ∈ m.trace a.after between := by
    rw [hBetween]
    simp
  exact timed_invariant_of_mem_trace time Inv Ok hStep hOk
    hLaterClock hStart hMem

/-
  The once rule. When a counted turn leaves the run spent,
  a spent run stays spent and a spent run counts no turn,
  then at most one turn counts.
-/
theorem countP_le_one_of_spent
    {m : StepMachine S I O}
    {counted : Turn S I O → Bool}
    (time : I → Nat)
    (Spent : Nat → S → Prop)
    (Ok : S → I → Prop)
    (hSpends :
      ∀ s i, Ok s i → counted (m.turn s i) = true →
        Spent (time i) (m.step s i).1)
    (hStep :
      ∀ now s i, Spent now s → now ≤ time i → Ok s i →
        Spent (time i) (m.step s i).1)
    (hSilent :
      ∀ now s i, Spent now s → now ≤ time i → Ok s i →
        counted (m.turn s i) = false)
    {s : S}
    {inputs : List I}
    (hOk :
      ∀ t ∈ m.trace s inputs, Ok t.before t.input)
    (hClock : (inputs.map time).Pairwise (· ≤ ·)) :
    (m.trace s inputs).countP counted ≤ 1 := by
  induction inputs generalizing s with
  | nil => simp
  | cons i rest ih =>
      have hHead : Ok s i := hOk (m.turn s i) (by simp)
      have hRest :
          ∀ t ∈ m.trace (m.step s i).1 rest,
            Ok t.before t.input :=
        fun t ht => hOk t (List.mem_cons_of_mem _ ht)
      rw [trace_cons, List.countP_cons]
      cases hCounted : counted (m.turn s i) with
      | false =>
          have hLater :=
            ih hRest (List.pairwise_cons.mp hClock).2
          simpa using hLater
      | true =>
          have hNone :
              (m.trace (m.step s i).1 rest).countP
                counted = 0 := by
            rw [List.countP_eq_zero]
            intro t hMem
            rcases timed_invariant_of_mem_trace time Spent Ok
              hStep hRest hClock
              (hSpends s i hHead hCounted) hMem with
              ⟨past, hPast, hInv⟩
            have hTurn :=
              hSilent past t.before t.input hInv hPast
                (hRest t hMem)
            rw [← eq_turn_of_mem_trace hMem] at hTurn
            simp [hTurn]
          simp [hNone]

/-
  The potential rule. When every counted turn pays one unit
  of a potential that no turn raises, a run counts no more
  turns than the potential it starts with.
-/
theorem countP_le_of_potential
    {m : StepMachine S I O}
    {counted : Turn S I O → Bool}
    (potential : S → Nat)
    (hStep :
      ∀ s i,
        (counted (m.turn s i)).toNat +
            potential (m.step s i).1 ≤
          potential s)
    (s : S)
    (inputs : List I) :
    (m.trace s inputs).countP counted ≤ potential s := by
  induction inputs generalizing s with
  | nil => simp
  | cons i rest ih =>
      have hTurn := hStep s i
      have hRest := ih (m.step s i).1
      rw [trace_cons, List.countP_cons]
      cases hCounted : counted (m.turn s i) with
      | false =>
          simp only [hCounted, Bool.toNat_false] at hTurn
          simp only [Bool.false_eq_true, if_false]
          omega
      | true =>
          simp only [hCounted, Bool.toNat_true] at hTurn
          simp only [if_true]
          omega

/-
  The simulation rule. When a turn of one machine is matched
  by a turn of the other on the same input, their runs end
  in matching states.
-/
theorem simulates_final
    {T P : Type}
    {m : StepMachine S I O}
    {n : StepMachine T I P}
    (R : S → T → Prop)
    (Ok : I → Prop)
    (hStep :
      ∀ s t i, R s t → Ok i →
        R (m.step s i).1 (n.step t i).1)
    {s : S}
    {t : T}
    {inputs : List I}
    (hOk : ∀ i ∈ inputs, Ok i)
    (hInit : R s t) :
    R (m.final s inputs) (n.final t inputs) := by
  induction inputs generalizing s t with
  | nil => exact hInit
  | cons i rest ih =>
      apply ih
      · intro j hMem
        exact hOk j (List.mem_cons_of_mem _ hMem)
      · exact hStep s t i hInit (hOk i (by simp))

/-
  What holds at every turn of the matching run holds at
  every turn of the run it matches.
-/
theorem simulates_trace
    {T P : Type}
    {m : StepMachine S I O}
    {n : StepMachine T I P}
    (R : S → T → Prop)
    (Ok : I → Prop)
    {C : S → I → Prop}
    {D : T → I → Prop}
    (hStep :
      ∀ s t i, R s t → Ok i →
        R (m.step s i).1 (n.step t i).1)
    (hHolds : ∀ s t i, R s t → D t i → C s i)
    {s : S}
    {t : T}
    {inputs : List I}
    (hOk : ∀ i ∈ inputs, Ok i)
    (hInit : R s t)
    (hTurns :
      ∀ u ∈ n.trace t inputs, D u.before u.input) :
    ∀ u ∈ m.trace s inputs, C u.before u.input := by
  induction inputs generalizing s t with
  | nil => simp
  | cons i rest ih =>
      intro u hMem
      rw [trace_cons] at hMem hTurns
      rcases List.mem_cons.mp hMem with rfl | hTail
      · exact hHolds s t i hInit
          (hTurns (n.turn t i) (by simp))
      · apply ih (t := (n.step t i).1) _ _ _ u hTail
        · intro j hRest
          exact hOk j (List.mem_cons_of_mem _ hRest)
        · exact hStep s t i hInit (hOk i (by simp))
        · intro v hLater
          exact hTurns v (List.mem_cons_of_mem _ hLater)

/-
  The last-writer rule. When each input either sets a field
  or leaves it, the field is what the last one set.
-/
theorem last_write
    {α : Type}
    {m : StepMachine S I O}
    (field : S → α)
    (write : I → Option α)
    (Ok : I → Prop)
    (hStep :
      ∀ s i, Ok i →
        field (m.step s i).1 = (write i).getD (field s))
    (s : S)
    {inputs : List I}
    (hOk : ∀ i ∈ inputs, Ok i) :
    field (m.final s inputs) =
      (inputs.filterMap write).getLast?.getD (field s) := by
  induction inputs generalizing s with
  | nil => rfl
  | cons i rest ih =>
      have hRest : ∀ j ∈ rest, Ok j := by
        intro j hMem
        exact hOk j (List.mem_cons_of_mem _ hMem)
      rw [final_cons, ih _ hRest, hStep s i (hOk i (by simp))]
      cases hWrite : write i with
      | none =>
          rw [List.filterMap_cons_none hWrite,
            Option.getD_none]
      | some a =>
          rw [List.filterMap_cons_some hWrite,
            List.getLast?_cons, Option.getD_some,
            Option.getD_some]

end StepMachine
