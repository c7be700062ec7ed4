import AgentWays.Keepwarm.PolicySpec
import AgentWays.Keepwarm.WindowRuns

/-
  One action per idle stretch.

  A keepalive marks itself pending and a compaction ends the
  stretch, so a second check before a newer request is
  silent. A wrap with keepalives after it leaves no mark: the
  due point of the turn before it still stands, and a check
  before the wrap's own turn acts on it again. `Steady` says
  that no check comes there.

  Key definitions include:
    * `Keepwarm.stretchMachine`
    * `Keepwarm.Unarmed`
    * `Keepwarm.Steady`
    * `Keepwarm.Resting`

  Main declarations:
    * `Keepwarm.resting_policyStep`
    * `Keepwarm.one_action_per_stretch`
-/

------------------------------------------------------------
-- Checks Without An Operator's Window
------------------------------------------------------------

namespace Keepwarm

/- One policy check's inputs; the gate is off. -/
structure CheckInput where
  reading : Reading
  arm : Option ArmFile
  site : Site
  now : Nat

/- A run of policy checks under one configuration. -/
def stretchMachine
    (cfg : Config) : StepMachine State CheckInput Check where
  step s i :=
    let c := policyStep s i.reading i.arm cfg .off i.site
      i.now
    (c.state, c)

/- No arm file, or one the sensor wrote for itself. -/
def Unarmed
    (arm : Option ArmFile) : Prop :=
  ∀ a, arm = some a → a.auto = true

/-
  The check does not come between a wrap and its own turn.
  Where keepalives follow the wrap, a check before it has
  seen no request from its own second on, and one after it
  whose last request is older than the wrap reads a newer
  one, or comes before the due point or past the cache.
  Where the policy does not run, the sensor's arm does not
  grow without a newer request.
-/
structure Steady
    (cfg : Config)
    (s : State)
    (i : CheckInput) : Prop where
  clock :
    0 < cfg.afterMax → s.policy.wrappedAt = none →
      s.lastSeenAt < i.now ∧
        ∀ e ∈ i.reading.usageTail, e.atEpoch < i.now
  seen :
    0 < cfg.afterMax →
      ∀ w, s.policy.wrappedAt = some w →
        s.lastSeenAt < w →
        NoNewer s i.reading →
        ∀ last, i.reading.usageTail.getLast? = some last →
          i.now <
              last.atEpoch +
                (last.ttlSecs - cfg.marginSecs) ∨
            cacheLapsed (some i.reading) i.now = true
  plain :
    cfg.whyOff .off ≠ none →
      NoNewer s i.reading →
        armDeadline i.arm ≤ s.deadline

end Keepwarm

------------------------------------------------------------
-- Resting Policies
------------------------------------------------------------

namespace Keepwarm

/- Nothing more follows the wrap at any due point. -/
def WrapOver
    (cfg : Config)
    (p : Policy) : Prop :=
  p.wrappedAt.isSome = true ∧
    (cfg.afterMax = 0 ∨ p.compactedAt.isSome = true)

/-
  A policy with no action left in its stretch: a keepalive
  is pending, the policy stopped, the wrap was the last, or
  the wrap's turn has not been seen.
-/
structure Resting
    (cfg : Config)
    (s : State) : Prop where
  baselined : s.baselined = true
  mark :
    s.pingedAt.isSome = true ∨
      s.policy.stopped.isSome = true ∨
      WrapOver cfg s.policy ∨
      ∃ w, s.policy.wrappedAt = some w ∧ s.lastSeenAt < w

theorem WrapOver.afterWrapEnds_ne_none
    {cfg : Config}
    {p : Policy}
    (hOver : WrapOver cfg p) :
    afterWrapEnds cfg p ≠ none := by
  intro hNone
  rcases hOver with ⟨hWrapped, hLast⟩
  have hCompacted :=
    Check.compactedAt_of_afterWrapEnds hNone hWrapped
  rcases Option.isSome_iff_exists.mp hWrapped with
    ⟨w, hWrapped⟩
  rcases hLast with hZero | hSome
  · simp only [afterWrapEnds, hWrapped, hCompacted, hZero]
      at hNone
    split at hNone <;> simp at hNone
  · simp [hCompacted] at hSome

/- A due point is the reading's last request's. -/
theorem duePoint_ok
    {s : State}
    {reading : Reading}
    {cfg : Config}
    {d : DuePoint}
    (hPoint : duePoint s reading cfg = .ok d) :
    ∃ last,
      reading.usageTail.getLast? = some last ∧
        d.due =
          last.atEpoch +
            (last.ttlSecs - cfg.marginSecs) := by
  unfold duePoint at hPoint
  split at hPoint
  · simp at hPoint
  · rename_i last hLast
    split at hPoint
    · simp at hPoint
    · split at hPoint
      · simp at hPoint
      · split at hPoint
        · simp at hPoint
        · rw [Except.ok.injEq] at hPoint
          subst hPoint
          exact ⟨last, hLast, rfl⟩

end Keepwarm

------------------------------------------------------------
-- Checks Of A Running Policy
------------------------------------------------------------

namespace Keepwarm

/- With no operator's window no window opens or wakes. -/
theorem policyPoll_of_unarmed
    {arm : Option ArmFile}
    (hUnarmed : Unarmed arm)
    (s : State)
    (reading : Reading)
    (now : Nat) :
    (policyPoll s reading arm now).out.observations = [] := by
  have hNone : (operatorArm s arm).2 = none := by
    unfold operatorArm
    split
    · rename_i a
      rw [if_pos (hUnarmed a rfl)]
      split <;> rfl
    · rfl
  have hDeadline :
      (policyPoll s reading arm now).state.deadline = 0 := by
    rcases policyPoll_window s reading arm now with
      ⟨hSame, _⟩ | ⟨hZero, _⟩
    · rw [hSame, hNone]
      rfl
    · exact hZero
  rcases policyPoll_observations s reading arm now with
    hNil | hWoken
  · exact hNil
  · have hOpen := hWoken.isOpen
    omega

variable {cfg : Config} {s : State} {i : CheckInput}

/- The step before the judgment keeps a policy resting. -/
theorem resting_policyPoll
    (hRest : Resting cfg s)
    (hNone : NoNewer s i.reading) :
    Resting cfg
      (policyPoll s i.reading i.arm i.now).state := by
  have hSeen :=
    policyPoll_lastSeenAt_of_noNewer hRest.baselined hNone
      i.arm i.now
  rcases policyPoll_policy s i.reading i.arm i.now with
    ⟨_, _, _, hPolicy⟩
  refine ⟨policyPoll_baselined s i.reading i.arm i.now, ?_⟩
  rcases hRest.mark with
    hPinged | hStopped | hOver | ⟨w, hWrapped, hLate⟩
  · rcases Option.isSome_iff_exists.mp hPinged with
      ⟨pinged, hPinged⟩
    rcases (policyPoll_of_pinged hRest.baselined hNone
      hPinged i.arm i.now).2 with
      ⟨hKept, _⟩ | ⟨_, hStopped⟩
    · exact Or.inl (by simp [hKept])
    · exact Or.inr (Or.inl hStopped)
  · exact Or.inr
      (Or.inl
        (policyPoll_stopped hStopped i.reading i.arm i.now))
  · refine Or.inr (Or.inr (Or.inl ?_))
    rw [hPolicy]
    exact hOver
  · refine Or.inr (Or.inr (Or.inr ⟨w, ?_, ?_⟩))
    · rw [hPolicy]
      exact hWrapped
    · rw [hSeen]
      exact hLate

/-
  The judgment on a resting policy. The due point of the
  turn before the wrap is the one thing that could still
  act, and `hSeen` keeps the check away from it.
-/
theorem resting_judge
    {q : Poll}
    (hRest : Resting cfg q.state)
    (hObserved : q.out.observations = [])
    (hSeen :
      0 < cfg.afterMax →
        ∀ w, q.state.policy.wrappedAt = some w →
          q.state.lastSeenAt < w →
          ∀ last, i.reading.usageTail.getLast? = some last →
            i.now <
                last.atEpoch +
                  (last.ttlSecs - cfg.marginSecs) ∨
              cacheLapsed (some i.reading) i.now = true) :
    (Check.judge q i.reading cfg i.site
        i.now).decision.action = .none ∧
      Resting cfg
        (Check.judge q i.reading cfg i.site i.now).state ∧
      (Check.judge q i.reading cfg i.site
        i.now).state.lastSeenAt = q.state.lastSeenAt := by
  have hWrappedDue :
      ∀ d, AtDue q i.reading cfg i.now d →
        cacheLapsed (some i.reading) i.now = false →
        q.state.policy.wrappedAt.isSome = true →
          False := by
    intro d hDue hWarm hWrapped
    rcases hRest.mark with
      hPinged | hStopped | hOver | ⟨w, hAt, hLate⟩
    · simp [hDue.unpinged] at hPinged
    · simp [hDue.running] at hStopped
    · exact hOver.afterWrapEnds_ne_none hDue.more
    · rcases duePoint_ok hDue.point with ⟨last, hLast, hD⟩
      have hNow := hDue.due
      by_cases hMore : 0 < cfg.afterMax
      · rcases hSeen hMore w hAt hLate last hLast with
          hEarly | hLapsed
        · omega
        · simp [hWarm] at hLapsed
      · have hOver : WrapOver cfg q.state.policy :=
          ⟨hWrapped, Or.inl (by omega)⟩
        exact hOver.afterWrapEnds_ne_none hDue.more
  have hUnwrappedDue :
      ∀ d, AtDue q i.reading cfg i.now d →
        q.state.policy.wrappedAt = none → False := by
    intro d hDue hWrapped
    rcases hRest.mark with
      hPinged | hStopped | hOver | ⟨w, hAt, _⟩
    · simp [hDue.unpinged] at hPinged
    · simp [hDue.running] at hStopped
    · simp [WrapOver, hWrapped] at hOver
    · simp [hWrapped] at hAt
  have hJudged :=
    Check.judge_cases q i.reading cfg i.site i.now
  generalize
    Check.judge q i.reading cfg i.site i.now = c at hJudged ⊢
  cases hJudged with
  | armedWake hSome _ _ _ => exact absurd hObserved hSome
  | quiet _ _ hState _ hAction =>
      rw [hState]
      exact ⟨hAction, hRest, rfl⟩
  | stopped _ _ _ _ hState _ hAction =>
      rw [hState]
      exact ⟨hAction,
        ⟨hRest.baselined, Or.inr (Or.inl rfl)⟩, rfl⟩
  | keepalive d _ hDue _ hWrapped _ _ _ _ =>
      exact (hUnwrappedDue d hDue hWrapped).elim
  | wrap d _ hDue _ hWrapped _ _ _ =>
      exact (hUnwrappedDue d hDue hWrapped).elim
  | afterKeepalive d hDue hWarm hWrapped _ _ _ _ =>
      exact (hWrappedDue d hDue hWarm hWrapped).elim
  | compact d _ hDue hWarm hWrapped _ _ _ _ _ _ =>
      exact (hWrappedDue d hDue hWarm hWrapped).elim

/- A resting policy takes no action at a steady check. -/
theorem resting_policyStep
    (hOn : cfg.whyOff .off = none)
    (hRest : Resting cfg s)
    (hNone : NoNewer s i.reading)
    (hUnarmed : Unarmed i.arm)
    (hSteady : Steady cfg s i) :
    (policyStep s i.reading i.arm cfg .off i.site
        i.now).decision.action = .none ∧
      Resting cfg
        (policyStep s i.reading i.arm cfg .off i.site
          i.now).state ∧
      (policyStep s i.reading i.arm cfg .off i.site
        i.now).state.lastSeenAt = s.lastSeenAt := by
  have hRecorded : Resting cfg (recordCheck s cfg .off) :=
    ⟨hRest.baselined, hRest.mark⟩
  have hSeen :
      (policyPoll (recordCheck s cfg .off) i.reading i.arm
        i.now).state.lastSeenAt = s.lastSeenAt :=
    policyPoll_lastSeenAt_of_noNewer hRecorded.baselined
      hNone i.arm i.now
  rcases policyPoll_policy (recordCheck s cfg .off) i.reading
    i.arm i.now with ⟨_, _, _, hPolicy⟩
  rw [policyStep_of_on hOn]
  have hJudged :=
    resting_judge (resting_policyPoll hRecorded hNone)
      (policyPoll_of_unarmed hUnarmed
        (recordCheck s cfg .off) i.reading i.now)
      (by
        intro hMore w hWrapped hLate last hLast
        rw [hPolicy] at hWrapped
        rw [hSeen] at hLate
        exact hSteady.seen hMore w hWrapped hLate hNone last
          hLast)
  exact ⟨hJudged.1, hJudged.2.1, hJudged.2.2.trans hSeen⟩

/- A step has seen no request from its own second on. -/
theorem policyPoll_lastSeenAt_lt
    (hSeen : s.lastSeenAt < i.now)
    (hEntries :
      ∀ e ∈ i.reading.usageTail, e.atEpoch < i.now) :
    (policyPoll s i.reading i.arm i.now).state.lastSeenAt <
      i.now := by
  rcases policyPoll_state s i.reading i.arm i.now with
    ⟨_, hState⟩
  rcases operatorArm_state s i.arm with ⟨_, hRead⟩
  rw [hState]
  dsimp only
  cases hBaselined : (operatorArm s i.arm).1.baselined with
  | true =>
      rw [State.stepWith_lastSeenAt hBaselined, hRead]
      cases hLast :
          (Poll.newEntries
            { s with deadline := _ } i.reading).getLast? with
      | none => exact hSeen
      | some last =>
          have hMem := List.mem_of_getLast? hLast
          exact hEntries last (List.mem_of_mem_filter hMem)
  | false =>
      rw [State.stepWith_of_not_baselined hBaselined]
      rcases Poll.baseline_state
        (Poll.readArm (operatorArm s i.arm).1
          (operatorArm s i.arm).2 i.now) i.reading i.now with
        ⟨_, hBaseline, _⟩
      rw [hBaseline]
      dsimp only
      unfold Reading.lastAt
      cases hLast : i.reading.usageTail.getLast? with
      | none => exact Nat.zero_lt_of_lt hSeen
      | some last =>
          exact hEntries last (List.mem_of_getLast? hLast)

/- An action of a running policy leaves it resting. -/
theorem resting_of_action
    (hOn : cfg.whyOff .off = none)
    (hUnarmed : Unarmed i.arm)
    (hSteady : Steady cfg s i)
    (hAction :
      (policyStep s i.reading i.arm cfg .off i.site
        i.now).decision.action ≠ .none) :
    Resting cfg
      (policyStep s i.reading i.arm cfg .off i.site
        i.now).state := by
  have hObserved :=
    policyPoll_of_unarmed hUnarmed (recordCheck s cfg .off)
      i.reading i.now
  have hBaselined :=
    policyPoll_baselined (recordCheck s cfg .off) i.reading
      i.arm i.now
  rcases policyPoll_policy (recordCheck s cfg .off) i.reading
    i.arm i.now with ⟨_, _, _, hPolicy⟩
  have hLate :
      0 < cfg.afterMax →
        s.policy.wrappedAt = none →
          (policyPoll (recordCheck s cfg .off) i.reading
            i.arm i.now).state.lastSeenAt < i.now := by
    intro hMore hWrapped
    have hClock := hSteady.clock hMore hWrapped
    exact policyPoll_lastSeenAt_lt hClock.1 hClock.2
  rw [policyStep_of_on hOn] at hAction ⊢
  have hJudged :=
    Check.judge_cases
      (policyPoll (recordCheck s cfg .off) i.reading i.arm
        i.now) i.reading cfg i.site i.now
  generalize
    policyPoll (recordCheck s cfg .off) i.reading i.arm
      i.now = q
    at hObserved hBaselined hPolicy hLate hJudged hAction ⊢
  generalize
    Check.judge q i.reading cfg i.site i.now = c
    at hJudged hAction ⊢
  cases hJudged with
  | armedWake hSome _ _ _ => exact absurd hObserved hSome
  | quiet _ _ _ _ hNone => exact absurd hNone hAction
  | stopped _ _ _ _ _ _ hNone => exact absurd hNone hAction
  | keepalive _ _ _ _ _ _ hState _ _ =>
      rw [hState]
      exact ⟨hBaselined, Or.inl rfl⟩
  | afterKeepalive _ _ _ _ _ hState _ _ =>
      rw [hState]
      exact ⟨hBaselined, Or.inl rfl⟩
  | wrap _ _ _ _ hWrapped hState _ _ =>
      rw [hState]
      refine ⟨hBaselined, Or.inr (Or.inr ?_)⟩
      by_cases hMore : 0 < cfg.afterMax
      · right
        rw [hPolicy] at hWrapped
        exact ⟨i.now, rfl, hLate hMore hWrapped⟩
      · exact Or.inl ⟨rfl, Or.inl (by omega)⟩
  | compact _ _ _ _ hWrapped _ _ hState _ _ _ =>
      rw [hState]
      exact ⟨hBaselined,
        Or.inr (Or.inr (Or.inl ⟨hWrapped, Or.inr rfl⟩))⟩

end Keepwarm

------------------------------------------------------------
-- Checks Where The Policy Does Not Run
------------------------------------------------------------

namespace Keepwarm

variable {cfg : Config} {s : State} {i : CheckInput}

/- A plain judgment acts on an observation alone. -/
theorem judgeOff_eq
    (hKeepwarm : cfg.keepwarmOn = true)
    (s : State)
    (reading : Reading)
    (arm : Option ArmFile)
    (why : String)
    (now : Nat) :
    (Check.judgeOff s reading arm cfg why now).state =
        (s.step reading arm now).state ∧
      ((Check.judgeOff s reading arm cfg why
          now).decision.action = .none ↔
        (s.step reading arm now).out.observations = []) := by
  simp only [Check.judgeOff, hKeepwarm, Bool.not_true,
    Bool.false_eq_true, if_false, true_and]
  split
  · rename_i hSome
    simp [hSome]
  · rename_i hNil
    simp [hNil, Decision.new]

/- With cache wakes off a plain judgment does nothing. -/
theorem keepwarmOn_of_action
    {why : String}
    (hOff : cfg.whyOff .off = some why)
    (hAction :
      (policyStep s i.reading i.arm cfg .off i.site
        i.now).decision.action ≠ .none) :
    cfg.keepwarmOn = true := by
  by_contra hNot
  rw [policyStep_of_off hOff] at hAction
  simp [Check.judgeOff, hNot, Decision.new] at hAction

/- A plain wake leaves its stretch spent. -/
theorem spent_of_plain_action
    {why : String}
    (hOff : cfg.whyOff .off = some why)
    (hAction :
      (policyStep s i.reading i.arm cfg .off i.site
        i.now).decision.action ≠ .none)
    (limit : Nat) :
    Spent i.now i.now limit
      (policyStep s i.reading i.arm cfg .off i.site
        i.now).state := by
  have hKeepwarm := keepwarmOn_of_action hOff hAction
  rw [policyStep_of_off hOff] at hAction ⊢
  have hPlain :=
    judgeOff_eq hKeepwarm (recordCheck s cfg .off) i.reading
      i.arm why i.now
  rw [hPlain.1]
  rcases State.stepWith_observations
    (recordCheck s cfg .off) i.reading i.arm i.now true with
    hNone | ⟨_, hWoken⟩
  · exact absurd (hPlain.2.mpr hNone) hAction
  · exact spent_of_woken
      (State.stepWith_baselined _ _ _ _ _) hWoken limit

/- A spent stretch stays spent under plain checks. -/
theorem spent_plain_step
    {why : String}
    {wakeAt past : Nat}
    (hOff : cfg.whyOff .off = some why)
    (hKeepwarm : cfg.keepwarmOn = true)
    (hSpent : Spent wakeAt past s.deadline s)
    (hNone : NoNewer s i.reading)
    (hSteady : Steady cfg s i)
    (hClock : past ≤ i.now) :
    (policyStep s i.reading i.arm cfg .off i.site
        i.now).decision.action = .none ∧
      Spent wakeAt i.now
        (policyStep s i.reading i.arm cfg .off i.site
          i.now).state.deadline
        (policyStep s i.reading i.arm cfg .off i.site
          i.now).state ∧
      (policyStep s i.reading i.arm cfg .off i.site
        i.now).state.lastSeenAt = s.lastSeenAt := by
  have hArm := hSteady.plain (by simp [hOff]) hNone
  have hRecorded :
      Spent wakeAt past s.deadline
        (recordCheck s cfg .off) :=
    ⟨hSpent.baselined, hSpent.due, hSpent.past,
      hSpent.marked⟩
  rw [policyStep_of_off hOff]
  have hPlain :=
    judgeOff_eq hKeepwarm (recordCheck s cfg .off) i.reading
      i.arm why i.now
  rw [hPlain.1, hPlain.2]
  have hDeadline :=
    State.stepWith_deadline_of_noNewer hRecorded.baselined
      hNone i.arm i.now true
  refine ⟨?_, ?_, ?_⟩
  · exact hRecorded.observations_eq_nil hNone hArm hClock
      true
  · refine hRecorded.stepWith hNone hArm ?_ hClock true
    change
      ((recordCheck s cfg .off).stepWith i.reading i.arm
        i.now true).state.deadline ≤ armDeadline i.arm
    omega
  · exact State.stepWith_lastSeenAt_of_noNewer
      hRecorded.baselined hNone i.arm i.now true

end Keepwarm

------------------------------------------------------------
-- Whole Runs
------------------------------------------------------------

namespace Keepwarm

variable {cfg : Config} {s : State} {i : CheckInput}

/-
  No action is left in the stretch of the request seen last
  at `lastAt`; `now` is the time of the last check.
-/
def StretchSpent
    (cfg : Config)
    (lastAt now : Nat)
    (s : State) : Prop :=
  s.lastSeenAt = lastAt ∧
    match cfg.whyOff .off with
    | none => Resting cfg s
    | some _ =>
        cfg.keepwarmOn = true ∧
          ∃ wakeAt, Spent wakeAt now s.deadline s

/- An action spends its stretch. -/
theorem stretchSpent_of_action
    (hUnarmed : Unarmed i.arm)
    (hSteady : Steady cfg s i)
    (hAction :
      (policyStep s i.reading i.arm cfg .off i.site
        i.now).decision.action ≠ .none) :
    StretchSpent cfg
      (policyStep s i.reading i.arm cfg .off i.site
        i.now).state.lastSeenAt i.now
      (policyStep s i.reading i.arm cfg .off i.site
        i.now).state := by
  refine ⟨rfl, ?_⟩
  cases hOff : cfg.whyOff .off with
  | none =>
      exact resting_of_action hOff hUnarmed hSteady hAction
  | some why =>
      exact ⟨keepwarmOn_of_action hOff hAction, i.now,
        spent_of_plain_action hOff hAction _⟩

/- Before a newer request a spent stretch stays silent. -/
theorem stretchSpent_step
    {lastAt past : Nat}
    (hSpent : StretchSpent cfg lastAt past s)
    (hClock : past ≤ i.now)
    (hOld :
      ∀ e ∈ i.reading.usageTail, e.atEpoch ≤ lastAt)
    (hUnarmed : Unarmed i.arm)
    (hSteady : Steady cfg s i) :
    (policyStep s i.reading i.arm cfg .off i.site
        i.now).decision.action = .none ∧
      StretchSpent cfg lastAt i.now
        (policyStep s i.reading i.arm cfg .off i.site
          i.now).state := by
  rcases hSpent with ⟨hSeen, hSpent⟩
  have hNone : NoNewer s i.reading := by
    intro e hMem
    rw [hSeen]
    exact hOld e hMem
  unfold StretchSpent
  cases hOff : cfg.whyOff .off with
  | none =>
      rw [hOff] at hSpent
      have hStep :=
        resting_policyStep hOff hSpent hNone hUnarmed hSteady
      exact ⟨hStep.1, hStep.2.2.trans hSeen, hStep.2.1⟩
  | some why =>
      rw [hOff] at hSpent
      rcases hSpent with ⟨hKeepwarm, wakeAt, hSpent⟩
      have hStep :=
        spent_plain_step hOff hKeepwarm hSpent hNone hSteady
          hClock
      exact ⟨hStep.1, hStep.2.2.trans hSeen, hKeepwarm,
        wakeAt, hStep.2.1⟩

abbrev CheckTurn :=
  StepMachine.Turn State CheckInput Check

/-
  Between two actions of a run some check reads a request
  newer than the last one seen at the first.
-/
def ActsOncePerStretch
    (run : List CheckTurn) : Prop :=
  ∀ (earlier middle later : List CheckTurn)
    (a b : CheckTurn),
    run = earlier ++ a :: (middle ++ b :: later) →
    a.output.decision.action ≠ .none →
    b.output.decision.action ≠ .none →
      ∃ u ∈ middle ++ [b],
        ∃ e ∈ u.input.reading.usageTail,
          a.after.lastSeenAt < e.atEpoch

/- A run whose checks are all steady acts once a stretch. -/
theorem one_action_per_stretch
    (cfg : Config)
    (s : State)
    (checks : List CheckInput)
    (hClock :
      (checks.map CheckInput.now).Pairwise (· ≤ ·))
    (hUnarmed : ∀ i ∈ checks, Unarmed i.arm)
    (hSteady :
      ∀ t ∈ (stretchMachine cfg).trace s checks,
        Steady cfg t.before t.input) :
    ActsOncePerStretch
      ((stretchMachine cfg).trace s checks) := by
  intro earlier middle later a b hTrace hFirst hSecond
  by_contra hNewer
  have hOld :
      ∀ u ∈ middle ++ [b],
        ∀ e ∈ u.input.reading.usageTail,
          e.atEpoch ≤ a.after.lastSeenAt := by
    intro u hMem e hEntry
    by_contra hLater
    exact hNewer ⟨u, hMem, e, hEntry, by omega⟩
  have hAll :
      ∀ t ∈ a :: (middle ++ [b]),
        t ∈ (stretchMachine cfg).trace s checks := by
    intro t hMem
    rw [hTrace]
    simp only [List.mem_cons, List.mem_append,
      List.not_mem_nil, or_false] at hMem ⊢
    tauto
  have hInput :
      ∀ t ∈ a :: (middle ++ [b]), Unarmed t.input.arm := by
    intro t hMem
    apply hUnarmed
    exact StepMachine.input_mem_of_mem_trace (hAll t hMem)
  have hTurnA :=
    StepMachine.eq_turn_of_mem_trace (hAll a (by simp))
  have hTurnB :=
    StepMachine.eq_turn_of_mem_trace (hAll b (by simp))
  have hStart :
      StretchSpent cfg a.after.lastSeenAt a.input.now
        a.after := by
    have hAction :
        (policyStep a.before a.input.reading a.input.arm cfg
          .off a.input.site a.input.now).decision.action ≠
            .none := by
      rw [hTurnA] at hFirst
      exact hFirst
    rw [hTurnA]
    exact stretchSpent_of_action (hInput a (by simp))
      (hSteady a (hAll a (by simp))) hAction
  have hOk :
      ∀ t ∈ middle ++ [b],
        (∀ e ∈ t.input.reading.usageTail,
            e.atEpoch ≤ a.after.lastSeenAt) ∧
          Unarmed t.input.arm ∧
          Steady cfg t.before t.input := by
    intro t hMem
    exact ⟨hOld t hMem,
      hInput t (List.mem_cons_of_mem _ hMem),
      hSteady t (hAll t (List.mem_cons_of_mem _ hMem))⟩
  rcases StepMachine.timed_invariant_between
    CheckInput.now
    (StretchSpent cfg a.after.lastSeenAt)
    (fun s i =>
      (∀ e ∈ i.reading.usageTail,
        e.atEpoch ≤ a.after.lastSeenAt) ∧
      Unarmed i.arm ∧ Steady cfg s i)
    (fun past s i hSpent hNow hOk =>
      (stretchSpent_step hSpent hNow hOk.1 hOk.2.1
        hOk.2.2).2)
    hTrace hClock hOk hStart with ⟨past, hPast, hSpent⟩
  have hSilent :=
    (stretchSpent_step hSpent hPast
      (hOld b (by simp)) (hInput b (by simp))
      (hSteady b (hAll b (by simp)))).1
  rw [hTurnB] at hSecond
  exact hSecond hSilent

/- No keepalive before the wrap, and one after it. -/
def wrappingConfig : Config :=
  { defaultConfig with
    max := 0
    afterMax := 1
    sessionSkills := .listed ["wrap"] }

/- A check of the request at `lastAt`, with no arm file. -/
def checkAt
    (lastAt now : Nat) : CheckInput :=
  { reading := warmReading lastAt
    arm := none
    site := plainSite
    now := now }

/- A check after the wrap's own turn is steady. -/
theorem wrappingConfig_acts_once :
    ActsOncePerStretch
      ((stretchMachine wrappingConfig).trace {}
        [checkAt 10000 13000, checkAt 13010 16010]) := by
  apply one_action_per_stretch
  · decide
  · intro i hMem a hArm
    simp only [List.mem_cons, List.not_mem_nil,
      or_false] at hMem
    rcases hMem with rfl | rfl <;> simp [checkAt] at hArm
  · intro t hMem
    simp only [StepMachine.trace_cons,
      StepMachine.trace_nil, List.mem_cons,
      List.not_mem_nil, or_false] at hMem
    rcases hMem with rfl | rfl
    · refine ⟨fun _ _ => by decide, fun _ w hWrapped => ?_,
        fun hOff => absurd rfl hOff⟩
      simp [StepMachine.turn] at hWrapped
    · refine ⟨fun _ hWrapped => ?_, fun _ w _ _ hNone => ?_,
        fun hOff => absurd rfl hOff⟩
      · exact absurd hWrapped (by decide)
      · exact absurd hNone (by decide)

/-
  A fresh session's wrap, and a check a minute later that
  reads the same transcript and sends a keepalive.
-/
theorem wrap_stretch_acts_twice :
    ([checkAt 10000 13000, checkAt 10000 13060].map
        CheckInput.now).Pairwise (· ≤ ·) ∧
      (∀ i ∈ [checkAt 10000 13000, checkAt 10000 13060],
        Unarmed i.arm) ∧
      ¬ ActsOncePerStretch
        ((stretchMachine wrappingConfig).trace {}
          [checkAt 10000 13000, checkAt 10000 13060]) := by
  refine ⟨by decide, ?_, ?_⟩
  · intro i hMem a hArm
    simp only [List.mem_cons, List.not_mem_nil,
      or_false] at hMem
    rcases hMem with rfl | rfl <;> simp [checkAt] at hArm
  · intro hOnce
    have hNewer :=
      hOnce [] [] [] _ _ rfl (by decide) (by decide)
    exact absurd hNewer (by decide)

end Keepwarm
