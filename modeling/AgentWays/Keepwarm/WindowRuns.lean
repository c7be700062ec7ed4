import AgentWays.Lib.StepMachine
import AgentWays.Keepwarm.StepSpec

/-
  Runs of the armed window: the sensor's polls over one
  state and one arm file.

  The file changes only by the polls' own writes, and each
  write may fail. After a wake the stretch is spent: its
  mark stays, or the file's deadline is over, or the wake is
  more than ten minutes old and the cache's hour with it.

  Key definitions include:
    * `Keepwarm.Armed`
    * `Keepwarm.windowMachine`
    * `Keepwarm.Spent`

  Main declarations:
    * `Keepwarm.Spent.stepWith`
    * `Keepwarm.Spent.observations_eq_nil`
    * `Keepwarm.one_wake_per_idle_stretch`
-/

------------------------------------------------------------
-- The Window Machine
------------------------------------------------------------

namespace Keepwarm

/- The sensor's state with the arm file on disk. -/
structure Armed where
  state : State
  arm : Option ArmFile
deriving DecidableEq

/- One poll's input; `written` says its arm write lands. -/
structure PollInput where
  reading : Reading
  now : Nat
  written : Bool
deriving DecidableEq

/- One poll with its arm write settled, or failed. -/
def windowMachine :
    StepMachine Armed PollInput Outcome where
  step a i :=
    let q := a.state.step i.reading a.arm i.now
    ({ state := q.state
       arm :=
         if i.written then
           settleArm a.arm a.arm q.out i.now
         else a.arm },
      q.out)

/- Whether a turn returned an observation. -/
def observed
    (t : StepMachine.Turn Armed PollInput Outcome) : Bool :=
  !t.output.observations.isEmpty

/-
  No poll of the run reads an entry newer than the last
  request its state has seen. A first poll takes the
  transcript as it is, whatever it holds.
-/
def StaleRun
    (a : Armed)
    (polls : List PollInput) : Prop :=
  ∀ t ∈ windowMachine.trace a polls,
    t.before.state.baselined = true →
      NoNewer t.before.state t.input.reading

instance
    (a : Armed)
    (polls : List PollInput) :
    Decidable (StaleRun a polls) :=
  inferInstanceAs
    (Decidable
      (∀ t ∈ windowMachine.trace a polls,
        t.before.state.baselined = true →
          NoNewer t.before.state t.input.reading))

end Keepwarm

------------------------------------------------------------
-- Spent Stretches
------------------------------------------------------------

namespace Keepwarm

/-
  The stretch whose wake fired at `wakeAt` has no second
  wake: `now` is the time of the last poll, and no window
  reaches past `limit`.
-/
structure Spent
    (wakeAt now limit : Nat)
    (s : State) : Prop where
  baselined : s.baselined = true
  due : s.lastSeenAt + pingAfterSecs ≤ wakeAt
  past : wakeAt ≤ now
  marked :
    s.pingedAt = some wakeAt ∨
      limit ≤ now ∨
      wakeAt + (ttlSecs - pingAfterSecs) < now

/- A wake leaves its stretch spent. -/
theorem spent_of_woken
    {s : State}
    {now : Nat}
    (hBaselined : s.baselined = true)
    (hWoken : Woken s now)
    (limit : Nat) :
    Spent now now limit s := by
  have hDue := hWoken.due
  have hPing : 0 < pingAfterSecs := by decide
  exact
    { baselined := hBaselined
      due := by omega
      past := Nat.le_refl _
      marked := Or.inl hWoken.pinged }

section SpentSteps

variable {wakeAt past limit : Nat} {s : State}
variable {reading : Reading} {arm : Option ArmFile}

/- A poll that reads nothing new keeps a stretch spent. -/
theorem Spent.stepWith
    (hSpent : Spent wakeAt past limit s)
    (hNone : NoNewer s reading)
    (hArm : armDeadline arm ≤ limit)
    {limit' : Nat}
    (hLimit : limit' ≤ armDeadline arm)
    {now : Nat}
    (hClock : past ≤ now)
    (autoArm : Bool) :
    Spent wakeAt now limit'
      (s.stepWith reading arm now autoArm).state := by
  have hSeen :=
    State.stepWith_lastSeenAt_of_noNewer hSpent.baselined
      hNone arm now autoArm
  have hPast := hSpent.past
  refine
    { baselined := State.stepWith_baselined _ _ _ _ _
      due := ?_
      past := by omega
      marked := ?_ }
  · rw [hSeen]
    exact hSpent.due
  · rcases hSpent.marked with hPinged | hOver | hLate
    · have hStep :=
        State.stepWith_of_pinged hSpent.baselined hNone
          hPinged arm now autoArm
      rcases hStep.2 with hKept | ⟨_, hOver | hLate⟩
      · exact Or.inl hKept
      · exact Or.inr (Or.inl (by omega))
      · exact Or.inr (Or.inr (by omega))
    · exact Or.inr (Or.inl (by omega))
    · exact Or.inr (Or.inr (by omega))

/-
  A spent stretch fires no wake. The ten minutes of a wake's
  silence and the fifty of its due point are the cache's
  whole hour, so no wake fires past them.
-/
theorem Spent.observations_eq_nil
    (hSpent : Spent wakeAt past limit s)
    (hNone : NoNewer s reading)
    (hArm : armDeadline arm ≤ limit)
    {now : Nat}
    (hClock : past ≤ now)
    (autoArm : Bool) :
    (s.stepWith reading arm now
      autoArm).out.observations = [] := by
  have hSeen :=
    State.stepWith_lastSeenAt_of_noNewer hSpent.baselined
      hNone arm now autoArm
  have hDeadline :=
    State.stepWith_deadline_of_noNewer hSpent.baselined
      hNone arm now autoArm
  rcases State.stepWith_observations s reading arm now
    autoArm with hNil | ⟨_, hWoken⟩
  · exact hNil
  · have hOpen := hWoken.isOpen
    have hWarm := hWoken.warm
    have hDue := hSpent.due
    rcases hSpent.marked with hPinged | hOver | hLate
    · exact
        (State.stepWith_of_pinged hSpent.baselined hNone
          hPinged arm now autoArm).1
    · omega
    · have hHour :
          pingAfterSecs + (ttlSecs - pingAfterSecs) =
            ttlSecs := by decide
      omega

end SpentSteps

/- A disarming write leaves no deadline to come. -/
theorem armDeadline_settleArm_le
    {arm : Option ArmFile}
    {out : Outcome}
    (now : Nat)
    (hWrite : out.armWrite = none ∨ out.armWrite = some 0) :
    armDeadline (settleArm arm arm out now) ≤
      armDeadline arm := by
  rcases hWrite with hNone | hZero
  · simp [settleArm, hNone]
  · simp [settleArm, hZero, armDeadline]

/- A poll that reads nothing new brings no later deadline. -/
theorem armDeadline_step_le
    {a : Armed}
    {i : PollInput}
    (hBaselined : a.state.baselined = true)
    (hNone : NoNewer a.state i.reading) :
    armDeadline (windowMachine.step a i).1.arm ≤
      armDeadline a.arm := by
  have hWrite :=
    State.stepWith_armWrite_of_noNewer hBaselined hNone
      a.arm i.now true
  unfold windowMachine
  dsimp only [State.step]
  split
  · exact armDeadline_settleArm_le i.now hWrite
  · exact Nat.le_refl _

end Keepwarm

------------------------------------------------------------
-- Whole Runs
------------------------------------------------------------

namespace Keepwarm

/- A turn is observed by its step's observation. -/
theorem observed_eq_false_iff
    (a : Armed)
    (i : PollInput) :
    observed (windowMachine.turn a i) = false ↔
      (a.state.stepWith i.reading a.arm i.now
        true).out.observations = [] := by
  simp [observed, StepMachine.turn, windowMachine,
    State.step]

/- A run that reads nothing new fires one wake at most. -/
theorem countP_observed_le_one
    {a : Armed}
    {polls : List PollInput}
    (hClock :
      (polls.map PollInput.now).Pairwise (· ≤ ·))
    (hStale : StaleRun a polls) :
    (windowMachine.trace a polls).countP observed ≤ 1 := by
  -- A first poll returns no observation, so a state that is
  -- not baselined is never spent and never observed.
  apply StepMachine.countP_le_one_of_spent PollInput.now
    (fun now a => ∃ wakeAt,
      Spent wakeAt now (armDeadline a.arm) a.state)
    (fun a i => a.state.baselined = true →
      NoNewer a.state i.reading)
  · intro a i _ hObserved
    refine ⟨i.now, spent_of_woken
      (State.stepWith_baselined _ _ _ _ _) ?_ _⟩
    rcases State.stepWith_observations a.state i.reading
      a.arm i.now true with hNone | ⟨_, hWoken⟩
    · rw [← observed_eq_false_iff, hObserved] at hNone
      exact absurd hNone (by decide)
    · exact hWoken
  · rintro now a i ⟨wakeAt, hSpent⟩ hNow hOk
    have hNone := hOk hSpent.baselined
    exact ⟨wakeAt,
      hSpent.stepWith hNone (Nat.le_refl _)
        (armDeadline_step_le hSpent.baselined hNone) hNow
        true⟩
  · rintro now a i ⟨wakeAt, hSpent⟩ hNow hOk
    rw [observed_eq_false_iff]
    exact hSpent.observations_eq_nil
      (hOk hSpent.baselined) (Nat.le_refl _) hNow true
  · exact hStale
  · exact hClock

/-
  The armed window wakes at most once in an idle stretch,
  and each wake falls in the last ten minutes of the cache's
  hour, with a context worth it and the window open.
-/
theorem one_wake_per_idle_stretch :
    (∀ (a : Armed) (polls : List PollInput),
      (polls.map PollInput.now).Pairwise (· ≤ ·) →
      StaleRun a polls →
        (windowMachine.trace a polls).countP observed ≤
          1) ∧
    ∀ (s : State) (reading : Reading)
      (arm : Option ArmFile) (now : Nat),
      (s.step reading arm now).out.observations ≠ [] →
        (∃ line,
          (s.step reading arm now).out.observations =
            [line]) ∧
        3000 ≤
          now - (s.step reading arm now).state.lastSeenAt ∧
        now - (s.step reading arm now).state.lastSeenAt <
          3600 ∧
        bigTokens ≤ (s.step reading arm now).state.ctx ∧
        now < (s.step reading arm now).state.deadline ∧
        (s.step reading arm now).state.pingedAt =
          some now := by
  refine ⟨fun a polls => countP_observed_le_one, ?_⟩
  intro s reading arm now hObserved
  rcases State.stepWith_observations s reading arm now
    true with hNone | ⟨hLine, hWoken⟩
  · exact absurd hNone hObserved
  · exact ⟨hLine, hWoken.due, hWoken.warm, hWoken.big,
      hWoken.isOpen, hWoken.pinged⟩

/- An idle session under an operator's arm. -/
def idleArmed : Armed :=
  { state :=
      { deadline := 20000
        baselined := true
        lastSeenAt := 10000
        ctx := 200000 }
    arm := some ⟨20000, 9000, 11000, false⟩ }

/- A reading of nothing new at `now`. -/
def idlePoll
    (now : Nat) : PollInput :=
  { reading := ⟨200000, "", "", []⟩
    now := now
    written := true }

/- One wake in the window of an idle session. -/
theorem one_wake_of_idleArmed :
    (windowMachine.trace idleArmed
        [idlePoll 13000, idlePoll 13100, idlePoll
          13700]).countP observed ≤ 1 ∧
      (idleArmed.state.step (idlePoll 13000).reading
        idleArmed.arm 13000).state.pingedAt =
        some 13000 := by
  constructor
  · exact one_wake_per_idle_stretch.1 idleArmed _
      (by decide) (by decide)
  · exact (one_wake_per_idle_stretch.2 idleArmed.state
      (idlePoll 13000).reading idleArmed.arm 13000
      (by decide)).2.2.2.2.2

end Keepwarm
