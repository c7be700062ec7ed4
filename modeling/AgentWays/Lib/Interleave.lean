import AgentWays.Lib.StepMachine

/-
  Calls that interleave over a shared store.

  Each call keeps its own place and takes its steps one at a
  time, in any order with the steps of the others. A proof
  says what holds of the store, what each call may rely on,
  and what keeps two calls apart; a step then has to be
  looked at from the call that takes it and from one other.

  Key definitions include:
    * `Interleave.Crew`
    * `Interleave.Move`
    * `Interleave.machine`
    * `Interleave.Sound`

  Main declarations:
    * `Interleave.Sound.start`
    * `Interleave.Sound.step`
    * `Interleave.sound_of_mem_trace`
    * `Interleave.perm_filterMap_set`
-/

------------------------------------------------------------
-- Crews
------------------------------------------------------------

namespace Interleave

/- A shared store and the calls at work on it. -/
structure Crew (σ κ : Type) where
  shared : σ
  calls : List κ

/- A call starts, a call takes a step, or the world does. -/
inductive Move (ρ ε ω : Type)
| start (request : ρ)
| step (i : Nat) (choice : ε)
| world (event : ω)

variable {σ κ ρ ε ω : Type}

/-
  The crew after a move. A step that a call cannot take
  leaves everything as it is.
-/
def Crew.next
    (call : ρ → κ)
    (act : σ → κ → ε → Option (σ × κ))
    (world : σ → ω → σ)
    (s : Crew σ κ) : Move ρ ε ω → Crew σ κ
| .start request =>
    { s with calls := s.calls ++ [call request] }
| .step i choice =>
    match s.calls[i]? with
    | none => s
    | some call =>
        match act s.shared call choice with
        | none => s
        | some (shared, call) =>
            { shared := shared, calls := s.calls.set i call }
| .world event => { s with shared := world s.shared event }

/- The interleavings of a crew, as runs of a machine. -/
def machine
    (call : ρ → κ)
    (act : σ → κ → ε → Option (σ × κ))
    (world : σ → ω → σ) :
    StepMachine (Crew σ κ) (Move ρ ε ω) Unit where
  step s move := (s.next call act world move, ())

end Interleave

------------------------------------------------------------
-- Invariants
------------------------------------------------------------

namespace Interleave

variable {σ κ ρ ε ω : Type}

/-
  What holds of the store, what each call relies on, and
  what keeps each two calls apart.
-/
structure Sound
    (Inv : σ → Prop)
    (Own : σ → κ → Prop)
    (Apart : κ → κ → Prop)
    (s : Crew σ κ) : Prop where
  shared : Inv s.shared
  own : ∀ c ∈ s.calls, Own s.shared c
  apart :
    ∀ (i j : Nat) (c d : κ), i ≠ j →
      s.calls[i]? = some c → s.calls[j]? = some d →
        Apart c d

variable {Inv : σ → Prop} {Own : σ → κ → Prop}
variable {Apart : κ → κ → Prop} {s : Crew σ κ}

theorem sound_nil
    {shared : σ}
    (hShared : Inv shared) :
    Sound Inv Own Apart { shared := shared, calls := [] } :=
  ⟨hShared, by simp, by simp⟩

/- A call starts that is apart from those at work. -/
theorem Sound.start
    (hSound : Sound Inv Own Apart s)
    (hSymm : ∀ c d, Apart c d → Apart d c)
    {call : κ}
    (hOwn : Own s.shared call)
    (hApart : ∀ d ∈ s.calls, Apart call d) :
    Sound Inv Own Apart
      { s with calls := s.calls ++ [call] } := by
  refine ⟨hSound.shared, ?_, ?_⟩
  · intro c hMember
    rcases List.mem_append.mp hMember with hOld | hNew
    · exact hSound.own c hOld
    · rw [List.mem_singleton.mp hNew]
      exact hOwn
  · have hPlace :
        ∀ i c, (s.calls ++ [call])[i]? = some c →
          s.calls[i]? = some c ∨
            (i = s.calls.length ∧ c = call) := by
      intro i c hAt
      rw [List.getElem?_append] at hAt
      split at hAt
      · exact Or.inl hAt
      · rw [List.getElem?_singleton] at hAt
        split at hAt
        · cases hAt
          exact Or.inr ⟨by omega, rfl⟩
        · cases hAt
    intro i j c d hOther hC hD
    rcases hPlace i c hC with hOldC | ⟨hI, rfl⟩
    · rcases hPlace j d hD with hOldD | ⟨hJ, rfl⟩
      · exact hSound.apart i j c d hOther hOldC hOldD
      · exact hSymm d c (hApart c (List.mem_of_getElem? hOldC))
    · rcases hPlace j d hD with hOldD | ⟨hJ, rfl⟩
      · exact hApart d (List.mem_of_getElem? hOldD)
      · omega

/-
  A call takes a step: it has to keep the store, and its own
  place, and leave to each other call what that relies on.
-/
theorem Sound.step
    (hSound : Sound Inv Own Apart s)
    (hSymm : ∀ c d, Apart c d → Apart d c)
    {i : Nat}
    {call call' : κ}
    {shared : σ}
    (hCall : s.calls[i]? = some call)
    (hInv : Inv shared)
    (hOwn : Own shared call')
    (hOthers :
      ∀ (j : Nat) (d : κ), j ≠ i → s.calls[j]? = some d →
        Own shared d ∧ Apart call' d) :
    Sound Inv Own Apart
      { shared := shared, calls := s.calls.set i call' } := by
  have hPlace :
      ∀ j c, (s.calls.set i call')[j]? = some c →
        (j = i ∧ c = call') ∨
          (j ≠ i ∧ s.calls[j]? = some c) := by
    intro j c hAt
    by_cases hJ : j = i
    · subst hJ
      have hBound := (List.getElem?_eq_some_iff.mp hCall).1
      rw [List.getElem?_set_self hBound] at hAt
      exact Or.inl ⟨rfl, (Option.some.inj hAt).symm⟩
    · rw [List.getElem?_set_ne (Ne.symm hJ)] at hAt
      exact Or.inr ⟨hJ, hAt⟩
  refine ⟨hInv, ?_, ?_⟩
  · intro c hMember
    rcases List.mem_iff_getElem?.mp hMember with ⟨j, hAt⟩
    rcases hPlace j c hAt with ⟨-, rfl⟩ | ⟨hJ, hOld⟩
    · exact hOwn
    · exact (hOthers j c hJ hOld).1
  · intro j k c d hOther hC hD
    rcases hPlace j c hC with ⟨hJ, rfl⟩ | ⟨hJ, hOldC⟩
    · rcases hPlace k d hD with ⟨hK, rfl⟩ | ⟨hK, hOldD⟩
      · omega
      · exact (hOthers k d hK hOldD).2
    · rcases hPlace k d hD with ⟨hK, rfl⟩ | ⟨hK, hOldD⟩
      · exact hSymm d c (hOthers j c hJ hOldC).2
      · exact hSound.apart j k c d hOther hOldC hOldD

/-
  The rule for every interleaving. `Ok` is what is asked of
  a move in the state it is made in.
-/
theorem sound_of_mem_trace
    {call : ρ → κ}
    {act : σ → κ → ε → Option (σ × κ)}
    {world : σ → ω → σ}
    (Ok : Crew σ κ → Move ρ ε ω → Prop)
    (hSymm : ∀ c d, Apart c d → Apart d c)
    (hStart :
      ∀ s request, Sound Inv Own Apart s →
        Ok s (.start request) →
        Own s.shared (call request) ∧
          ∀ d ∈ s.calls, Apart (call request) d)
    (hStep :
      ∀ s i choice c shared c',
        Sound Inv Own Apart s → Ok s (.step i choice) →
        s.calls[i]? = some c →
        act s.shared c choice = some (shared, c') →
        Inv shared ∧ Own shared c' ∧
          ∀ (j : Nat) (d : κ), j ≠ i →
            s.calls[j]? = some d →
              Own shared d ∧ Apart c' d)
    (hWorld :
      ∀ s event, Sound Inv Own Apart s → Ok s (.world event) →
        Inv (world s.shared event) ∧
          ∀ c ∈ s.calls, Own (world s.shared event) c)
    {s : Crew σ κ}
    {moves : List (Move ρ ε ω)}
    (hOk :
      ∀ t ∈ (machine call act world).trace s moves,
        Ok t.before t.input)
    (hInit : Sound Inv Own Apart s)
    {t : StepMachine.Turn (Crew σ κ) (Move ρ ε ω) Unit}
    (hMember : t ∈ (machine call act world).trace s moves) :
    Sound Inv Own Apart t.before ∧
      Sound Inv Own Apart t.after := by
  have hNext :
      ∀ s move, Sound Inv Own Apart s → Ok s move →
        Sound Inv Own Apart
          ((machine call act world).step s move).1 := by
    intro s move hSound hMove
    change Sound Inv Own Apart (s.next call act world move)
    cases move with
    | start request =>
        rcases hStart s request hSound hMove with
          ⟨hOwn, hApart⟩
        exact hSound.start hSymm hOwn hApart
    | step i choice =>
        unfold Crew.next
        simp only
        split
        · exact hSound
        · rename_i c hCall
          split
          · exact hSound
          · rename_i shared c' hAct
            rcases hStep s i choice c shared c' hSound
              hMove hCall hAct with ⟨hInv, hOwn, hOthers⟩
            exact hSound.step hSymm hCall hInv hOwn hOthers
    | world event =>
        rcases hWorld s event hSound hMove with ⟨hInv, hOwn⟩
        exact ⟨hInv, hOwn, hSound.apart⟩
  exact
    StepMachine.invariant_of_mem_trace (Sound Inv Own Apart) Ok
      hNext hOk hInit hMember

end Interleave

------------------------------------------------------------
-- Accounts
------------------------------------------------------------

namespace Interleave

variable {κ α : Type}

/-
  What the calls have brought about, when one call that had
  brought about nothing takes its step.
-/
theorem perm_filterMap_set
    (f : κ → Option α)
    {calls : List κ}
    {i : Nat}
    {call call' : κ}
    (hCall : calls[i]? = some call)
    (hNone : f call = none) :
    ((calls.set i call').filterMap f).Perm
      (calls.filterMap f ++ (f call').toList) := by
  induction calls generalizing i with
  | nil => simp at hCall
  | cons head rest ih =>
      cases i with
      | zero =>
          simp only [List.getElem?_cons_zero,
            Option.some.injEq] at hCall
          subst hCall
          rw [List.set_cons_zero, List.filterMap_cons_none hNone]
          cases hNew : f call' with
          | none => simp [hNew]
          | some a =>
              rw [List.filterMap_cons_some hNew]
              exact (List.perm_append_singleton a _).symm
      | succ i =>
          simp only [List.getElem?_cons_succ] at hCall
          rw [List.set_cons_succ]
          cases hHead : f head with
          | none =>
              rw [List.filterMap_cons_none hHead,
                List.filterMap_cons_none hHead]
              exact ih hCall
          | some a =>
              rw [List.filterMap_cons_some hHead,
                List.filterMap_cons_some hHead]
              exact (ih hCall).cons a

end Interleave
