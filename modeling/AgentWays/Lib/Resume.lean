import Mathlib.Logic.Function.Iterate
import Mathlib.Tactic.Common

/-
  Procedures that are stopped and run again.

  A procedure is a step function on a state that holds what
  it does next. It can be stopped after any number of steps;
  a part it has done is absorbed when the whole, run from
  there, gives what the whole gives from the start.

  Key definitions include:
    * `Resume.Reaches`

  Main declarations:
    * `Resume.Reaches.head`
    * `Resume.Reaches.trans`
    * `Resume.foldl_absorb`
-/

------------------------------------------------------------
-- Steps To A State
------------------------------------------------------------

namespace Resume

variable {σ : Type} {f : σ → σ} {x y z : σ}

/- Some number of steps leads from one state to the other. -/
def Reaches
    (f : σ → σ)
    (x y : σ) : Prop :=
  ∃ n, f^[n] x = y

theorem Reaches.refl
    (f : σ → σ)
    (x : σ) :
    Reaches f x x :=
  ⟨0, rfl⟩

theorem Reaches.trans
    (hFirst : Reaches f x y)
    (hSecond : Reaches f y z) :
    Reaches f x z := by
  rcases hFirst with ⟨m, rfl⟩
  rcases hSecond with ⟨n, rfl⟩
  exact ⟨n + m, Function.iterate_add_apply f n m x⟩

/- One step, and then the rest. -/
theorem Reaches.head
    (hStep : f x = y)
    (hRest : Reaches f y z) :
    Reaches f x z :=
  Reaches.trans ⟨1, hStep⟩ hRest

end Resume

------------------------------------------------------------
-- Edits That Commute
------------------------------------------------------------

namespace Resume

variable {α β : Type} {f : α → β → α}

/-
  Edits that commute, each settled when made once: one made
  beforehand is absorbed by a run of all of them.
-/
theorem foldl_absorb
    (hComm : ∀ x a b, f (f x a) b = f (f x b) a)
    (hIdem : ∀ x a, f (f x a) a = f x a)
    {edits : List β}
    {a : β}
    (hMem : a ∈ edits)
    (x : α) :
    edits.foldl f (f x a) = edits.foldl f x := by
  induction edits generalizing x with
  | nil => cases hMem
  | cons b rest ih =>
      rw [List.foldl_cons, List.foldl_cons]
      rcases List.mem_cons.mp hMem with rfl | hRest
      · rw [hIdem]
      · rw [hComm]
        exact ih hRest (f x b)

end Resume
