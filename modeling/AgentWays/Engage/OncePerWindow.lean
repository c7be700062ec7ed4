import AgentWays.Engage.WayScored

/-
  Hooks deliver a way once per suppression, where no hook
  asks again behind the fire that is recorded.

  A fire ahead of a hook's position is dropped as stale, so
  a hook that has read its position before another's fire,
  and is slower than that, finds nothing recorded.

  Key definitions include:
    * `Engage.Step`
    * `Engage.timely`

  Main declarations:
    * `Engage.sound_of_mem_trace`
    * `Engage.oncePerWindow`
-/

------------------------------------------------------------
-- Steps
------------------------------------------------------------

namespace Engage

/- What a hook's step does. -/
inductive Step
    (curve : Curve)
    (s : Session) : Call → Session → Call → Prop
| read :
    Step curve s .asked s (.positioned s.position)
| hold (position : Nat) (shown : Shown) :
    (∀ p outcome, shown ≠ .delivered p outcome) →
      Step curve s (.positioned position) s (.returned shown)
| render (position : Nat) :
    Step curve s (.positioned position) s
      (.rendered position)
| take (position : Nat) :
    s.lock = false →
      Step curve s (.rendered position)
        { s with lock := true } (.locked position)
| refuse (position : Nat) (shown : Shown) :
    (∀ p outcome, shown ≠ .delivered p outcome) →
      Step curve s (.locked position) s (.leaving shown)
| allow (position : Nat) :
    (wayFireOutcome s.file curve
        position).outcome.isAllowed = true →
      Step curve s (.locked position) s
        (.admitted position
          (wayFireOutcome s.file curve position).outcome)
| record (position : Nat) (outcome : FireOutcome) :
    Step curve s (.admitted position outcome)
      { s with
        file := recordWayFire s.file curve position }
      (.leaving (.delivered position outcome))
| drop (shown : Shown) :
    Step curve s (.leaving shown) { s with lock := false }
      (.returned shown)

variable {curve : Curve} {s s' : Session} {c c' d : Call}
variable {e : Choice}

theorem step_of_act
    (hAct : act curve s c e = some (s', c')) :
    Step curve s c s' c' := by
  cases c with
  | asked =>
      cases hAct
      exact .read
  | positioned position =>
      unfold act at hAct
      simp only at hAct
      generalize
        wayFireOutcome (if e.torn then none else s.file) curve
          position = decision at hAct
      split at hAct
      · cases hAct
        exact .hold position _ (fun _ _ => Shown.noConfusion)
      · split at hAct
        · cases hAct
          exact
            .hold position _ (fun _ _ => Shown.noConfusion)
        · cases hAct
          exact .render position
  | rendered position =>
      unfold act at hAct
      simp only at hAct
      split at hAct
      · cases hAct
      · rename_i hFree
        cases hAct
        exact .take position (by simpa using hFree)
  | locked position =>
      unfold act at hAct
      simp only at hAct
      split at hAct
      · cases hAct
        exact
          .refuse position _ (fun _ _ => Shown.noConfusion)
      · rename_i hAllowed
        split at hAct
        · cases hAct
          exact
            .refuse position _
              (fun _ _ => Shown.noConfusion)
        · cases hAct
          exact .allow position (by simpa using hAllowed)
  | admitted position outcome =>
      cases hAct
      exact .record position outcome
  | leaving shown =>
      cases hAct
      exact .drop shown
  | returned shown => cases hAct

end Engage

------------------------------------------------------------
-- What Each Hook Relies On
------------------------------------------------------------

namespace Engage

variable {n : Nat} {s s' : Session} {c c' d : Call}

/-
  What a hook relies on: its lock, that the suppression has
  passed since the fire that is recorded, and that its own
  fire is recorded, or a later one.
-/
structure Own
    (n : Nat)
    (s : Session)
    (c : Call) : Prop where
  lock : c.holds = true → s.lock = true
  due :
    ∀ position outcome, c = .admitted position outcome →
      ∀ last, lastFire s.file = some last →
        last + n ≤ position
  past :
    ∀ position, c.recordedAt = some position →
      ∃ last, lastFire s.file = some last ∧ position ≤ last

/- Two hooks hold no lock at once, and fire far apart. -/
structure Apart
    (n : Nat)
    (c d : Call) : Prop where
  lock : c.holds = true → d.holds = true → False
  gap :
    ∀ p q, c.recordedAt = some p → d.recordedAt = some q →
      p + n ≤ q ∨ q + n ≤ p

theorem Apart.symm
    (hApart : Apart n c d) :
    Apart n d c := by
  refine ⟨fun hD hC => hApart.lock hC hD, ?_⟩
  intro p q hP hQ
  exact (hApart.gap q p hQ hP).symm

/- A hook with no fire recorded fires far from no other. -/
theorem apart_of_none
    (hNone : c.recordedAt = none)
    (hLock : c.holds = true → d.holds = true → False) :
    Apart n c d := by
  refine ⟨hLock, ?_⟩
  intro p q hP
  rw [hNone] at hP
  cases hP

/- A hook without the lock relies on nothing but its fire. -/
theorem own_of_none
    (hFree : c.holds = false)
    (hNone : c.recordedAt = none) :
    Own n s c := by
  refine ⟨?_, ?_, ?_⟩
  · intro hHolds
    rw [hFree] at hHolds
    cases hHolds
  · rintro position outcome rfl
    cases hFree
  · intro position hAt
    rw [hNone] at hAt
    cases hAt

theorem recordedAt_leaving
    {shown : Shown}
    (hHeld : ∀ p outcome, shown ≠ .delivered p outcome) :
    (Call.leaving shown).recordedAt = none ∧
      (Call.returned shown).recordedAt = none := by
  cases shown with
  | delivered p outcome => exact absurd rfl (hHeld p outcome)
  | heldRefire last => exact ⟨rfl, rfl⟩
  | heldContextCap => exact ⟨rfl, rfl⟩

/- A hook that is about to ask again has reached the fire. -/
def Reached
    (s : Session)
    (c : Call) : Prop :=
  ∀ position, c = .locked position →
    ∀ last, lastFire s.file = some last → last ≤ position

/- A hook's step keeps to what the hook relies on. -/
theorem own_of_step
    (hOwn : Own n s c)
    (hReached : Reached s c)
    (hStep : Step (.flat n) s c s' c') :
    Own n s' c' := by
  cases hStep with
  | read => exact own_of_none rfl rfl
  | hold position shown hHeld =>
      exact own_of_none rfl (recordedAt_leaving hHeld).2
  | render => exact own_of_none rfl rfl
  | take =>
      refine ⟨fun _ => rfl, ?_, ?_⟩
      · intro position outcome hNot
        cases hNot
      · intro position hNone
        cases hNone
  | refuse position shown hHeld =>
      refine ⟨fun _ => hOwn.lock rfl, ?_, ?_⟩
      · intro position outcome hNot
        cases hNot
      · intro position hAt
        rw [(recordedAt_leaving hHeld).1] at hAt
        cases hAt
  | allow position hAllowed =>
      refine ⟨fun _ => hOwn.lock rfl, ?_, ?_⟩
      · intro position' outcome hSame
        cases hSame
        exact
          (isAllowed_flat (hReached position rfl)).mp hAllowed
      · intro position' hNone
        cases hNone
  | record position outcome =>
      refine ⟨fun _ => hOwn.lock rfl, ?_, ?_⟩
      · intro position' outcome' hNot
        cases hNot
      · intro position' hAt
        cases hAt
        exact ⟨position, lastFire_recordWayFire, Nat.le_refl _⟩
  | drop shown =>
      refine ⟨?_, ?_, ?_⟩
      · intro hHolds
        cases hHolds
      · intro position outcome hNot
        cases hNot
      · intro position hAt
        apply hOwn.past position
        cases shown <;> exact hAt

/- A hook's step leaves others what they rely on. -/
theorem others_of_step
    (hOwn : Own n s c)
    (hOwnD : Own n s d)
    (hApart : Apart n c d)
    (hStep : Step (.flat n) s c s' c') :
    Own n s' d ∧ Apart n c' d := by
  cases hStep with
  | read =>
      exact
        ⟨hOwnD, apart_of_none rfl (fun hHolds => by cases hHolds)⟩
  | hold position shown hHeld =>
      exact
        ⟨hOwnD,
          apart_of_none (recordedAt_leaving hHeld).2
            (fun hHolds => by cases hHolds)⟩
  | render =>
      exact
        ⟨hOwnD, apart_of_none rfl (fun hHolds => by cases hHolds)⟩
  | take position hFree =>
      -- no other holds a lock that is free
      have hNot : d.holds = true → False := by
        intro hHolds
        rw [hOwnD.lock hHolds] at hFree
        cases hFree
      exact
        ⟨⟨fun _ => rfl, hOwnD.due, hOwnD.past⟩,
          apart_of_none rfl (fun _ => hNot)⟩
  | refuse position shown hHeld =>
      exact
        ⟨hOwnD,
          apart_of_none (recordedAt_leaving hHeld).1
            (fun _ => hApart.lock rfl)⟩
  | allow =>
      exact
        ⟨hOwnD, apart_of_none rfl (fun _ => hApart.lock rfl)⟩
  | record position outcome =>
      have hDue := hOwn.due position outcome rfl
      refine ⟨⟨hOwnD.lock, ?_, ?_⟩, ⟨fun _ => hApart.lock rfl, ?_⟩⟩
      · rintro position' outcome' rfl
        exact (hApart.lock rfl rfl).elim
      · intro p hAt
        rcases hOwnD.past p hAt with ⟨last, hLast, hLe⟩
        have hLater := hDue last hLast
        exact
          ⟨position, lastFire_recordWayFire, by omega⟩
      · intro p q hP hQ
        cases hP
        rcases hOwnD.past q hQ with ⟨last, hLast, hLe⟩
        have hLater := hDue last hLast
        exact Or.inr (by omega)
  | drop shown =>
      have hNot := hApart.lock (c := .leaving shown) rfl
      refine ⟨⟨?_, hOwnD.due, hOwnD.past⟩, ⟨?_, ?_⟩⟩
      · intro hHolds
        exact (hNot hHolds).elim
      · intro hHolds
        cases hHolds
      · intro p q hP hQ
        apply hApart.gap p q _ hQ
        cases shown <;> exact hP

end Engage

------------------------------------------------------------
-- Every Interleaving
------------------------------------------------------------

namespace Engage

/- No hook asks again behind the fire that is recorded. -/
def timely
    (s : Calls) : Move → Bool
| .step i _ =>
    match s.calls[i]? with
    | some (.locked position) =>
        (lastFire s.shared.file).all
          (fun last => last ≤ position)
    | _ => true
| _ => true

theorem reached_of_timely
    {s : Calls}
    {i : Nat}
    {e : Choice}
    {c : Call}
    (hTimely : timely s (.step i e) = true)
    (hCall : s.calls[i]? = some c) :
    Reached s.shared c := by
  rintro position rfl last hLast
  simp only [timely, hCall, hLast, Option.all_some,
    decide_eq_true_eq] at hTimely
  exact hTimely

theorem sound_of_mem_trace
    {n position : Nat}
    {file : File}
    {moves : List Move}
    (hMoves :
      ∀ t ∈ (hooks (.flat n)).trace (initial position file)
          moves,
        timely t.before t.input = true)
    {t : StepMachine.Turn Calls Move Unit}
    (hMember :
      t ∈ (hooks (.flat n)).trace (initial position file)
        moves) :
    Interleave.Sound (fun _ => True) (Own n) (Apart n)
        t.before ∧
      Interleave.Sound (fun _ => True) (Own n) (Apart n)
        t.after := by
  refine
    Interleave.sound_of_mem_trace
      (fun s move => timely s move = true)
      (fun _ _ => Apart.symm) ?_ ?_ ?_ hMoves
      (Interleave.sound_nil trivial) hMember
  · intro s request _ _
    refine ⟨own_of_none rfl rfl, fun d _ => ?_⟩
    exact apart_of_none rfl (fun hHolds => by cases hHolds)
  · intro s i choice c shared c' hSound hOk hCall hAct
    have hStep := step_of_act hAct
    have hOwn := hSound.own c (List.mem_of_getElem? hCall)
    refine
      ⟨trivial,
        own_of_step hOwn (reached_of_timely hOk hCall) hStep, ?_⟩
    intro j d hOther hPlace
    exact
      others_of_step hOwn
        (hSound.own d (List.mem_of_getElem? hPlace))
        (hSound.apart i j c d (Ne.symm hOther) hCall hPlace)
        hStep
  · intro s tokens hSound _
    refine ⟨trivial, ?_⟩
    intro c hMember
    have hOwn := hSound.own c hMember
    exact ⟨hOwn.lock, hOwn.due, hOwn.past⟩

/- Any two deliveries are a whole suppression apart. -/
def Spaced
    (n : Nat)
    (calls : List Call) : Prop :=
  ∀ (i j : Nat) (c d : Call), i ≠ j →
    calls[i]? = some c → calls[j]? = some d →
      ∀ p q, c.deliveredAt = some p →
        d.deliveredAt = some q → p + n ≤ q ∨ q + n ≤ p

theorem recordedAt_of_delivered
    {c : Call}
    {p : Nat}
    (hDelivered : c.deliveredAt = some p) :
    c.recordedAt = some p := by
  cases c with
  | returned shown => cases shown <;> exact hDelivered
  | _ => cases hDelivered

/-
  Hooks that ask again only where they have reached the fire
  that is recorded deliver the way once per suppression.
-/
theorem oncePerWindow
    {n position : Nat}
    {file : File}
    {moves : List Move}
    (hMoves :
      ∀ t ∈ (hooks (.flat n)).trace (initial position file)
          moves,
        timely t.before t.input = true) :
    ∀ t ∈ (hooks (.flat n)).trace (initial position file)
        moves,
      Spaced n t.after.calls := by
  intro t hMember i j c d hOther hC hD p q hP hQ
  have hSound := (sound_of_mem_trace hMoves hMember).2
  exact
    (hSound.apart i j c d hOther hC hD).gap p q
      (recordedAt_of_delivered hP) (recordedAt_of_delivered hQ)

/- A hook from its start to its delivery. -/
def through
    (i : Nat) : List Move :=
  List.replicate 5 (.step i .go)

/- Two hooks at work at once, and a third after ten tokens. -/
def threeHooks : List Move :=
  [.start (), .start (), .step 0 .go, .step 1 .go] ++
    through 0 ++ through 1 ++ [.world 10, .start ()] ++
      through 2 ++ [.step 2 .go]

theorem oncePerWindow_threeHooks :
    ((hooks (.flat 10)).trace (initial 100 none)
        threeHooks).length = 22 ∧
      ∀ t ∈ (hooks (.flat 10)).trace (initial 100 none)
          threeHooks,
        Spaced 10 t.after.calls :=
  ⟨rfl, oncePerWindow (by decide +kernel)⟩

/-
  A hook reads position 100, and another reads 105 and
  delivers; the first then finds a fire ahead of it.
-/
def slowHook : List Move :=
  [.start (), .step 0 .go, .world 5, .start (),
    .step 1 .go] ++ through 1 ++ through 0

theorem not_oncePerWindow_slowHook :
    ¬ ∀ n position file moves,
      1 ≤ n →
        ∀ t ∈ (hooks (.flat n)).trace (initial position file)
            moves,
          Spaced n t.after.calls := by
  intro hClaim
  have hTwice :
      ∃ t ∈ (hooks (.flat 10)).trace (initial 100 none)
          slowHook,
        t.after.calls =
          [.returned (.delivered 100 .firstFire),
            .returned (.delivered 105 .firstFire)] := by
    decide
  rcases hTwice with ⟨t, hMember, hCalls⟩
  have hSpaced :=
    hClaim 10 100 none slowHook (by decide) t hMember
  rw [hCalls] at hSpaced
  have hGap :=
    hSpaced 0 1 _ _ (by decide) rfl rfl 100 105 rfl rfl
  omega

end Engage
