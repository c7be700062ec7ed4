import AgentWays.Keepwarm.Policy
import AgentWays.Keepwarm.WindowSpec

/-
  What one judgment of the policy can do.

  `Check.judge_cases` says it once: nothing, an armed
  window's wake, or at a due point a stop, a keepalive, a
  wrap, a keepalive after the wrap or a compaction. The rest
  of the module says what the step before it leaves alone.

  Key definitions include:
    * `Keepwarm.AtDue`
    * `Keepwarm.Judged`

  Main declarations:
    * `Keepwarm.Check.judge_cases`
    * `Keepwarm.policyPoll_policy`
    * `Keepwarm.policyPoll_of_pinged`
-/

------------------------------------------------------------
-- The Shapes Of A Judgment
------------------------------------------------------------

namespace Keepwarm

/- What a due turn needs: nothing else speaks before it. -/
structure AtDue
    (q : Poll)
    (reading : Reading)
    (cfg : Config)
    (now : Nat)
    (d : DuePoint) : Prop where
  unobserved : q.out.observations = []
  closed : q.state.deadline ≤ now
  more : afterWrapEnds cfg q.state.policy = none
  running : q.state.policy.stopped = none
  unpinged : q.state.pingedAt = none
  point : duePoint q.state reading cfg = .ok d
  due : d.due ≤ now

/- The shapes a judgment on a stepped state has. -/
inductive Judged
    (q : Poll)
    (reading : Reading)
    (cfg : Config)
    (now : Nat)
    (c : Check) : Prop
| armedWake
    (hObserved : q.out.observations ≠ [])
    (hState : c.state = q.state)
    (hOut : c.out = q.out)
    (hAction : c.decision.action = .keepalive)
| quiet
    (hObserved : q.out.observations = [])
    (hNotDue : ∀ d, ¬ AtDue q reading cfg now d)
    (hState : c.state = q.state)
    (hOut : c.out = q.out)
    (hAction : c.decision.action = .none)
| stopped
    (d : DuePoint)
    (why : String)
    (stretch : Option Nat)
    (hDue : AtDue q reading cfg now d)
    (hState : c.state =
      { q.state with
        policy :=
          { q.state.policy with
            stopped := some why
            stretchFrom := stretch } })
    (hOut : c.out = { q.out with changed := true })
    (hAction : c.decision.action = .none)
| keepalive
    (d : DuePoint)
    (stretch : Option Nat)
    (hDue : AtDue q reading cfg now d)
    (hWarm : cacheLapsed (some reading) now = false)
    (hWrapped : q.state.policy.wrappedAt = none)
    (hCount : q.state.policy.count < cfg.max)
    (hState : c.state =
      { q.state with
        policy :=
          { q.state.policy with
            count := q.state.policy.count + 1
            pending := true
            stretchFrom := stretch }
        pingedAt := some now })
    (hOut : c.out = { q.out with changed := true })
    (hAction : c.decision.action = .keepalive)
| wrap
    (d : DuePoint)
    (stretch : Option Nat)
    (hDue : AtDue q reading cfg now d)
    (hWarm : cacheLapsed (some reading) now = false)
    (hWrapped : q.state.policy.wrappedAt = none)
    (hState : c.state =
      { q.state with
        policy :=
          { q.state.policy with
            wrappedAt := some now
            stretchFrom := stretch } })
    (hOut : c.out = { q.out with changed := true })
    (hAction : c.decision.action = .wrap)
| afterKeepalive
    (d : DuePoint)
    (hDue : AtDue q reading cfg now d)
    (hWarm : cacheLapsed (some reading) now = false)
    (hWrapped : q.state.policy.wrappedAt.isSome = true)
    (hCount : q.state.policy.afterCount < cfg.afterMax)
    (hState : c.state =
      { q.state with
        policy :=
          { q.state.policy with
            afterCount := q.state.policy.afterCount + 1
            pending := true }
        pingedAt := some now })
    (hOut : c.out = { q.out with changed := true })
    (hAction : c.decision.action = .keepalive)
| compact
    (d : DuePoint)
    (focus : String)
    (hDue : AtDue q reading cfg now d)
    (hWarm : cacheLapsed (some reading) now = false)
    (hWrapped : q.state.policy.wrappedAt.isSome = true)
    (hAfter : cfg.afterWrap = .compact)
    (hFocus : q.state.policy.compactFocus = some focus)
    (hState : c.state =
      { q.state with
        policy :=
          { q.state.policy with
            compactedAt := some now } })
    (hOut : c.out = { q.out with changed := true })
    (hAction : c.decision.action = .compact)
    (hText : c.decision.text = some focus)

/- An estimate changes neither the action nor the policy. -/
@[simp] theorem Decision.estimate_action
    (d : Decision)
    (cfg : Config)
    (p : Policy)
    (due ttl : Nat) :
    (d.estimate cfg p due ttl).action = d.action := by
  unfold Decision.estimate
  dsimp only
  split <;> rfl

@[simp] theorem Decision.estimate_policy
    (d : Decision)
    (cfg : Config)
    (p : Policy)
    (due ttl : Nat) :
    (d.estimate cfg p due ttl).policy = d.policy := by
  unfold Decision.estimate
  dsimp only
  split <;> rfl

end Keepwarm

------------------------------------------------------------
-- Due Turns
------------------------------------------------------------

namespace Keepwarm

namespace Check

variable {q : Poll} {reading : Reading} {cfg : Config}
variable {site : Site} {d : DuePoint} {now : Nat}

theorem afterWrapDue_cases
    (hDue : AtDue q reading cfg now d)
    (hWarm : cacheLapsed (some reading) now = false)
    (hWrapped : q.state.policy.wrappedAt.isSome = true) :
    Judged q reading cfg now
      (afterWrapDue { q with out.changed := true } cfg d
        now) := by
  unfold afterWrapDue
  dsimp only
  split
  · rename_i hMore
    exact Judged.afterKeepalive d hDue hWarm hWrapped hMore.1
      rfl rfl (by simp [keepaliveDecision])
  · split
    · rename_i focus hAfter hFocus
      exact Judged.compact d focus hDue hWarm hWrapped
        hAfter hFocus rfl rfl rfl rfl
    · exact Judged.stopped d _
        q.state.policy.stretchFrom hDue rfl rfl rfl

/- Only the stretch's start differs from the judged state. -/
theorem stretch_cases
    (s : State)
    (lastAt : Nat) :
    ∃ stretch,
      (if s.policy.since.isNone then
        { s with policy.stretchFrom := some lastAt }
      else s) =
        { s with policy.stretchFrom := stretch } := by
  split
  · exact ⟨some lastAt, rfl⟩
  · exact ⟨s.policy.stretchFrom, rfl⟩

theorem dueTurn_cases
    (hDue : AtDue q reading cfg now d)
    (hWarm : cacheLapsed (some reading) now = false)
    (hWrapped : q.state.policy.wrappedAt = none) :
    Judged q reading cfg now
      (dueTurn { q with out.changed := true } cfg site d
        now) := by
  rcases stretch_cases q.state d.lastAt with
    ⟨stretch, hStretch⟩
  unfold dueTurn
  dsimp only
  rw [hStretch]
  dsimp only
  split
  · rename_i hMore
    have hCount : q.state.policy.count < cfg.max := by
      have hNot := hMore.1
      simp only [decide_eq_true_eq, ge_iff_le] at hNot
      omega
    exact Judged.keepalive d stretch hDue hWarm hWrapped
      hCount rfl rfl (by simp [keepaliveDecision])
  · split
    · exact Judged.stopped d _ stretch hDue rfl rfl rfl
    · refine Judged.wrap d stretch hDue hWarm hWrapped rfl
        rfl ?_
      split <;> simp

theorem atDue_cases
    (hDue : AtDue q reading cfg now d) :
    Judged q reading cfg now
      (atDue q reading cfg site d now) := by
  unfold atDue
  dsimp only
  split
  · exact Judged.stopped d _ q.state.policy.stretchFrom
      hDue rfl rfl rfl
  · rename_i hLapsed
    have hWarm : cacheLapsed (some reading) now = false := by
      simpa using hLapsed
    cases hWrapped : q.state.policy.wrappedAt with
    | none =>
        simp only [Option.isSome_none, Bool.false_eq_true,
          if_false]
        exact dueTurn_cases hDue hWarm hWrapped
    | some _ =>
        simp only [Option.isSome_some, if_true]
        exact afterWrapDue_cases hDue hWarm
          (by simp [hWrapped])

theorem judge_cases
    (q : Poll)
    (reading : Reading)
    (cfg : Config)
    (site : Site)
    (now : Nat) :
    Judged q reading cfg now
      (judge q reading cfg site now) := by
  unfold judge
  dsimp only
  split
  · rename_i line rest hObserved
    exact Judged.armedWake (by simp [hObserved]) rfl rfl rfl
  · rename_i hObserved
    split
    · rename_i hOpen
      refine Judged.quiet hObserved ?_ rfl rfl rfl
      intro d hDue
      have hClosed := hDue.closed
      omega
    · rename_i hClosed
      split
      · rename_i hEnds
        refine Judged.quiet hObserved ?_ rfl rfl rfl
        intro d hDue
        simp [hDue.more] at hEnds
      · rename_i hMore
        split
        · rename_i hStopped
          refine Judged.quiet hObserved ?_ rfl rfl rfl
          intro d hDue
          simp [hDue.running] at hStopped
        · rename_i hRunning
          unfold judgeIdle
          dsimp only
          split
          · rename_i hPinged
            refine Judged.quiet hObserved ?_ rfl rfl ?_
            · intro d hDue
              simp [hDue.unpinged] at hPinged
            · dsimp only
              split <;> simp [Decision.new]
          · rename_i hUnpinged
            split
            · rename_i hIdle
              refine Judged.quiet hObserved ?_ rfl rfl rfl
              intro d hDue
              simp [hDue.point] at hIdle
            · rename_i d hPoint
              split
              · rename_i hEarly
                refine Judged.quiet hObserved ?_ rfl rfl ?_
                · intro d' hDue
                  have hSame := hDue.point
                  rw [hPoint, Except.ok.injEq] at hSame
                  subst hSame
                  have hNow := hDue.due
                  omega
                · simp [Decision.new]
              · rename_i hDue
                exact atDue_cases
                  { unobserved := hObserved
                    closed := by omega
                    more := hMore
                    running := hRunning
                    unpinged := hUnpinged
                    point := hPoint
                    due := by omega }

theorem afterWrapDue_decision
    (q : Poll)
    (cfg : Config)
    (d : DuePoint)
    (now : Nat) :
    (afterWrapDue q cfg d now).decision.policy = true := by
  unfold afterWrapDue
  dsimp only
  split
  · simp [keepaliveDecision, Decision.new]
  · split <;> rfl

theorem dueTurn_decision
    (q : Poll)
    (cfg : Config)
    (site : Site)
    (d : DuePoint)
    (now : Nat) :
    (dueTurn q cfg site d now).decision.policy = true := by
  unfold dueTurn
  generalize
    (if q.state.policy.since.isNone = true then _
    else q.state) = s
  dsimp only
  split
  · simp [keepaliveDecision, Decision.new]
  · split
    · rfl
    · dsimp only
      split
      · simp [Decision.new]
      · rfl

/- Every judgment is a running policy's. -/
theorem judge_decision
    (q : Poll)
    (reading : Reading)
    (cfg : Config)
    (site : Site)
    (now : Nat) :
    (judge q reading cfg site now).decision.policy =
      true := by
  have hAtDue :
      ∀ d,
        (atDue q reading cfg site d
          now).decision.policy = true := by
    intro d
    unfold atDue
    dsimp only
    split
    · rfl
    · split
      · exact afterWrapDue_decision _ cfg d now
      · exact dueTurn_decision _ cfg site d now
  unfold judge
  dsimp only
  split
  · rfl
  · split
    · rfl
    · split
      · rfl
      · split
        · rfl
        · unfold judgeIdle
          dsimp only
          split
          · dsimp only
            split
            · simp [Decision.new]
            · rfl
          · split
            · rfl
            · split
              · simp [Decision.new]
              · exact hAtDue _

/- A wrapped policy with more to come has not compacted. -/
theorem compactedAt_of_afterWrapEnds
    {cfg : Config}
    {p : Policy}
    (hMore : afterWrapEnds cfg p = none)
    (hWrapped : p.wrappedAt.isSome = true) :
    p.compactedAt = none := by
  rcases Option.isSome_iff_exists.mp hWrapped with
    ⟨at', hAt⟩
  cases hCompacted : p.compactedAt with
  | none => rfl
  | some c =>
      exfalso
      simp only [afterWrapEnds, hAt, hCompacted] at hMore
      split at hMore <;> simp at hMore

end Check

end Keepwarm

------------------------------------------------------------
-- The Step Before The Judgment
------------------------------------------------------------

namespace Keepwarm

/- The policy reads all but the deadline as it is. -/
theorem operatorArm_state
    (s : State)
    (arm : Option ArmFile) :
    ∃ deadline,
      (operatorArm s arm).1 =
        { s with deadline := deadline } := by
  unfold operatorArm
  split
  · split
    · split
      · exact ⟨0, rfl⟩
      · exact ⟨s.deadline, rfl⟩
    · exact ⟨s.deadline, rfl⟩
  · exact ⟨s.deadline, rfl⟩

/- The verdict's marks; all else is the stepped state. -/
theorem judgeVerdict_state
    (before after : State) :
    ∃ pending spent stopped,
      judgeVerdict before after =
        { after with
          policy :=
            { after.policy with
              pending := pending
              spentUsd := spent
              stopped := stopped } } := by
  unfold judgeVerdict
  split
  · exact ⟨false, after.policy.spentUsd,
      after.policy.stopped, rfl⟩
  · split
    · exact ⟨_, _, _, rfl⟩
    · exact ⟨after.policy.pending, after.policy.spentUsd,
        after.policy.stopped, rfl⟩

/- Before the judgment only the verdict's marks move. -/
theorem policyPoll_policy
    (s : State)
    (reading : Reading)
    (arm : Option ArmFile)
    (now : Nat) :
    ∃ pending spent stopped,
      (policyPoll s reading arm now).state.policy =
        { s.policy with
          pending := pending
          spentUsd := spent
          stopped := stopped } := by
  rcases operatorArm_state s arm with ⟨deadline, hRead⟩
  have hPolicy :=
    State.stepWith_policy (operatorArm s arm).1 reading
      (operatorArm s arm).2 now false
  rcases judgeVerdict_state (operatorArm s arm).1
    ((operatorArm s arm).1.stepWith reading
      (operatorArm s arm).2 now false).state with
    ⟨pending, spent, stopped, hVerdict⟩
  refine ⟨pending, spent, stopped, ?_⟩
  unfold policyPoll
  dsimp only
  rw [hVerdict]
  dsimp only
  rw [hPolicy, hRead]

/- The stepped state, but for the verdict's marks. -/
theorem policyPoll_state
    (s : State)
    (reading : Reading)
    (arm : Option ArmFile)
    (now : Nat) :
    ∃ policy,
      (policyPoll s reading arm now).state =
        { ((operatorArm s arm).1.stepWith reading
            (operatorArm s arm).2 now false).state with
          policy := policy } := by
  rcases judgeVerdict_state (operatorArm s arm).1
    ((operatorArm s arm).1.stepWith reading
      (operatorArm s arm).2 now false).state with
    ⟨_, _, _, hVerdict⟩
  exact ⟨_, hVerdict⟩

theorem policyPoll_baselined
    (s : State)
    (reading : Reading)
    (arm : Option ArmFile)
    (now : Nat) :
    (policyPoll s reading arm now).state.baselined =
      true := by
  rcases policyPoll_state s reading arm now with
    ⟨_, hState⟩
  rw [hState]
  exact State.stepWith_baselined _ _ _ _ _

/- The policy's own steps never arm a window. -/
theorem policyPoll_window
    (s : State)
    (reading : Reading)
    (arm : Option ArmFile)
    (now : Nat) :
    ((policyPoll s reading arm now).state.deadline =
          armDeadline (operatorArm s arm).2 ∧
        (policyPoll s reading arm now).out.armWrite =
          none) ∨
      ((policyPoll s reading arm now).state.deadline = 0 ∧
        (policyPoll s reading arm now).out.armWrite =
          some 0) := by
  rcases policyPoll_state s reading arm now with
    ⟨_, hState⟩
  have hKeeps :=
    (State.stepWith_keepsArm (operatorArm s arm).1 reading
      (operatorArm s arm).2 now false
      (fun _ => autoArmsIn_false now _ _ _ _)).window
  rw [Poll.readArm_deadline, Poll.readArm_out] at hKeeps
  rw [hState]
  exact hKeeps

theorem policyPoll_observations
    (s : State)
    (reading : Reading)
    (arm : Option ArmFile)
    (now : Nat) :
    (policyPoll s reading arm now).out.observations = [] ∨
      Woken (policyPoll s reading arm now).state now := by
  rcases policyPoll_state s reading arm now with
    ⟨_, hState⟩
  rcases State.stepWith_observations (operatorArm s arm).1
    reading (operatorArm s arm).2 now false with
    hNone | ⟨_, hWoken⟩
  · exact Or.inl hNone
  · right
    rw [hState]
    exact
      { pinged := hWoken.pinged
        isOpen := hWoken.isOpen
        seen := hWoken.seen
        due := hWoken.due
        warm := hWoken.warm
        big := hWoken.big }

/- A stop stays until the operator's word clears it. -/
theorem policyPoll_stopped
    {s : State}
    (hStopped : s.policy.stopped.isSome = true)
    (reading : Reading)
    (arm : Option ArmFile)
    (now : Nat) :
    (policyPoll s reading arm
      now).state.policy.stopped.isSome = true := by
  rcases operatorArm_state s arm with ⟨_, hRead⟩
  have hPolicy :=
    State.stepWith_policy (operatorArm s arm).1 reading
      (operatorArm s arm).2 now false
  have hKept :
      ((operatorArm s arm).1.stepWith reading
        (operatorArm s arm).2 now
        false).state.policy.stopped.isSome = true := by
    rw [hPolicy, hRead]
    exact hStopped
  unfold policyPoll judgeVerdict
  dsimp only
  split
  · exact hKept
  · split
    · dsimp only
      split
      · exact hKept
      · rfl
    · exact hKept

section NoNewEntry

variable {s : State} {reading : Reading}

/- What the policy reads of a state that has seen it all. -/
theorem operatorArm_noNewer
    (hNone : NoNewer s reading)
    (arm : Option ArmFile) :
    NoNewer (operatorArm s arm).1 reading := by
  rcases operatorArm_state s arm with ⟨_, hRead⟩
  rw [hRead]
  exact hNone

theorem policyPoll_lastSeenAt_of_noNewer
    (hBaselined : s.baselined = true)
    (hNone : NoNewer s reading)
    (arm : Option ArmFile)
    (now : Nat) :
    (policyPoll s reading arm now).state.lastSeenAt =
      s.lastSeenAt := by
  rcases policyPoll_state s reading arm now with
    ⟨_, hState⟩
  rcases operatorArm_state s arm with ⟨_, hRead⟩
  have hBase : (operatorArm s arm).1.baselined = true := by
    rw [hRead]
    exact hBaselined
  rw [hState]
  dsimp only
  rw [State.stepWith_lastSeenAt_of_noNewer hBase
    (operatorArm_noNewer hNone arm), hRead]

/-
  A pending wake that no request answered stays pending, or
  is dropped and stops the policy.
-/
theorem policyPoll_of_pinged
    (hBaselined : s.baselined = true)
    (hNone : NoNewer s reading)
    {pinged : Nat}
    (hPinged : s.pingedAt = some pinged)
    (arm : Option ArmFile)
    (now : Nat) :
    (policyPoll s reading arm now).out.observations = [] ∧
      ((policyPoll s reading arm now).state.pingedAt =
            some pinged ∧
          (policyPoll s reading arm now).state.policy =
            s.policy ∨
        (policyPoll s reading arm now).state.pingedAt =
            none ∧
          (policyPoll s reading arm
            now).state.policy.stopped.isSome = true) := by
  rcases operatorArm_state s arm with ⟨_, hRead⟩
  have hBase : (operatorArm s arm).1.baselined = true := by
    rw [hRead]
    exact hBaselined
  have hPing :
      (operatorArm s arm).1.pingedAt = some pinged := by
    rw [hRead]
    exact hPinged
  have hNoNewer := operatorArm_noNewer hNone arm
  have hStep :=
    State.stepWith_of_pinged hBase hNoNewer hPing
      (operatorArm s arm).2 now false
  have hLastPing :=
    State.stepWith_lastPing_of_noNewer hBase hNoNewer
      (operatorArm s arm).2 now false
  have hPolicy :=
    State.stepWith_policy (operatorArm s arm).1 reading
      (operatorArm s arm).2 now false
  refine ⟨hStep.1, ?_⟩
  unfold policyPoll
  dsimp only
  rcases hStep.2 with hKept | ⟨hDropped, _⟩
  · have hSkip :
        judgeVerdict (operatorArm s arm).1
            ((operatorArm s arm).1.stepWith reading
              (operatorArm s arm).2 now false).state =
          ((operatorArm s arm).1.stepWith reading
            (operatorArm s arm).2 now false).state := by
      simp [judgeVerdict, hBase, hKept]
    rw [hSkip]
    refine Or.inl ⟨hKept, ?_⟩
    rw [hPolicy, hRead]
  · refine Or.inr ?_
    -- No request landed, so the verdict is not a warm one.
    constructor
    · rcases judgeVerdict_state (operatorArm s arm).1
        ((operatorArm s arm).1.stepWith reading
          (operatorArm s arm).2 now false).state with
        ⟨_, _, _, hVerdict⟩
      rw [hVerdict]
      exact hDropped
    · simp [judgeVerdict, hBase, hPing, hDropped, hLastPing]

end NoNewEntry

theorem policyStep_of_off
    {cfg : Config}
    {gate : Gate}
    {why : String}
    (hOff : cfg.whyOff gate = some why)
    (s : State)
    (reading : Reading)
    (arm : Option ArmFile)
    (site : Site)
    (now : Nat) :
    policyStep s reading arm cfg gate site now =
      Check.judgeOff (recordCheck s cfg gate) reading arm
        cfg why now := by
  unfold policyStep
  rw [hOff]

theorem policyStep_of_on
    {cfg : Config}
    {gate : Gate}
    (hOn : cfg.whyOff gate = none)
    (s : State)
    (reading : Reading)
    (arm : Option ArmFile)
    (site : Site)
    (now : Nat) :
    policyStep s reading arm cfg gate site now =
      Check.judge
        (policyPoll (recordCheck s cfg gate) reading arm now)
        reading cfg site now := by
  unfold policyStep
  rw [hOn]

/- Where the policy does not run its marks stay. -/
theorem judgeOff_policy
    (s : State)
    (reading : Reading)
    (arm : Option ArmFile)
    (cfg : Config)
    (why : String)
    (now : Nat) :
    (Check.judgeOff s reading arm cfg why now).state.policy =
        s.policy ∧
      (Check.judgeOff s reading arm cfg why
        now).decision.policy = false := by
  unfold Check.judgeOff
  dsimp only
  split
  · exact ⟨rfl, rfl⟩
  · refine ⟨State.stepWith_policy s reading arm now true, ?_⟩
    dsimp only
    split <;> rfl

end Keepwarm
