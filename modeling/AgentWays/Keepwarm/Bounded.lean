import AgentWays.Lib.StepMachine
import AgentWays.Keepwarm.PolicySpec

/-
  The policy's bounded autonomy.

  `Budget` is what the policy may still do before the
  operator prompts again, and `Budget.Spend` is the abstract
  machine over it: keepalives up to a count, one wrap, more
  keepalives up to a second count, one compaction. Every
  event of the policy's runs is one move of that machine.

  Key definitions include:
    * `Keepwarm.Budget`
    * `Keepwarm.Budget.Spend`
    * `Keepwarm.PolicyEvent`
    * `Keepwarm.policyMachine`
    * `Keepwarm.counted`

  Main declarations:
    * `Keepwarm.policyMachine_spend`
    * `Keepwarm.bounded_autonomy`
-/

------------------------------------------------------------
-- The Abstract Budget
------------------------------------------------------------

namespace Keepwarm

/- The marks that bound what the policy sends. -/
structure Budget where
  count : Nat
  wrapped : Bool
  afterCount : Nat
  compacted : Bool
deriving DecidableEq

/- The budget a policy's marks stand for. -/
def Policy.budget
    (p : Policy) : Budget :=
  { count := p.count
    wrapped := p.wrappedAt.isSome
    afterCount := p.afterCount
    compacted := p.compactedAt.isSome }

namespace Budget

/-
  One move and the action it sends, if any. A compaction may
  also be reported without one.
-/
inductive Spend
    (cfg : Config)
    (b : Budget) : Option Action → Budget → Prop
| rest : Spend cfg b none b
| reported
    (hWrapped : b.wrapped = true) :
    Spend cfg b none { b with compacted := true }
| keepalive
    (hWrapped : b.wrapped = false)
    (hCount : b.count < cfg.max) :
    Spend cfg b (some .keepalive)
      { b with count := b.count + 1 }
| wrap
    (hWrapped : b.wrapped = false) :
    Spend cfg b (some .wrap) { b with wrapped := true }
| afterKeepalive
    (hWrapped : b.wrapped = true)
    (hCompacted : b.compacted = false)
    (hCount : b.afterCount < cfg.afterMax) :
    Spend cfg b (some .keepalive)
      { b with afterCount := b.afterCount + 1 }
| compact
    (hWrapped : b.wrapped = true)
    (hCompacted : b.compacted = false)
    (hAfter : cfg.afterWrap = .compact) :
    Spend cfg b (some .compact)
      { b with compacted := true }

/- The keepalives still to come before the wrap. -/
def keepalivesLeft
    (cfg : Config)
    (b : Budget) : Nat :=
  if b.wrapped then 0 else cfg.max - b.count

/- The keepalives still to come after the wrap. -/
def afterLeft
    (cfg : Config)
    (b : Budget) : Nat :=
  cfg.afterMax - b.afterCount

/- The budget no action follows any more. -/
def Over
    (b : Budget) : Prop :=
  b.wrapped = true ∧ b.compacted = true

variable {cfg : Config} {b b' : Budget}
variable {sent : Option Action}

/- A move raises no part of what is left, and pays for it. -/
theorem Spend.keepalivesLeft_le
    (hSpend : Spend cfg b sent b') :
    (decide (sent = some .keepalive) &&
        !b.wrapped).toNat + b'.keepalivesLeft cfg ≤
      b.keepalivesLeft cfg := by
  cases hSpend with
  | rest => simp
  | reported hWrapped => simp [keepalivesLeft, hWrapped]
  | keepalive hWrapped hCount =>
      simp [keepalivesLeft, hWrapped]
      omega
  | wrap hWrapped => simp [keepalivesLeft]
  | afterKeepalive hWrapped _ _ =>
      simp [keepalivesLeft, hWrapped]
  | compact hWrapped _ _ => simp [keepalivesLeft, hWrapped]

theorem Spend.allLeft_le
    (hSpend : Spend cfg b sent b') :
    (decide (sent = some .keepalive)).toNat +
        (b'.keepalivesLeft cfg + b'.afterLeft cfg) ≤
      b.keepalivesLeft cfg + b.afterLeft cfg := by
  cases hSpend with
  | rest => simp
  | reported hWrapped => simp [keepalivesLeft, afterLeft]
  | keepalive hWrapped hCount =>
      simp [keepalivesLeft, afterLeft, hWrapped]
      omega
  | wrap hWrapped => simp [keepalivesLeft, afterLeft]
  | afterKeepalive hWrapped _ hCount =>
      simp [keepalivesLeft, afterLeft, hWrapped]
      omega
  | compact hWrapped _ _ => simp [keepalivesLeft, afterLeft]

theorem Spend.wrapLeft_le
    (hSpend : Spend cfg b sent b') :
    (decide (sent = some .wrap)).toNat +
        (!b'.wrapped).toNat ≤
      (!b.wrapped).toNat := by
  cases hSpend with
  | rest => simp
  | reported hWrapped => simp
  | keepalive hWrapped _ => simp
  | wrap hWrapped => simp [hWrapped]
  | afterKeepalive hWrapped _ _ => simp
  | compact hWrapped _ _ => simp

theorem Spend.compactLeft_le
    (hSpend : Spend cfg b sent b') :
    (decide (sent = some .compact)).toNat +
        (!b'.compacted).toNat ≤
      (!b.compacted).toNat := by
  cases hSpend with
  | rest => simp
  | reported hWrapped => simp
  | keepalive hWrapped _ => simp
  | wrap hWrapped => simp
  | afterKeepalive hWrapped _ _ => simp
  | compact hWrapped hCompacted _ => simp [hCompacted]

/- Once over, nothing is sent and nothing reopens it. -/
theorem Spend.over
    (hSpend : Spend cfg b sent b')
    (hOver : b.Over) :
    sent = none ∧ b'.Over := by
  rcases hOver with ⟨hWrapped, hCompacted⟩
  cases hSpend with
  | rest => exact ⟨rfl, hWrapped, hCompacted⟩
  | reported _ => exact ⟨rfl, hWrapped, rfl⟩
  | keepalive hNot _ => simp [hWrapped] at hNot
  | wrap hNot => simp [hWrapped] at hNot
  | afterKeepalive _ hNot _ => simp [hCompacted] at hNot
  | compact _ hNot _ => simp [hCompacted] at hNot

/- Only a wrap wraps. -/
theorem Spend.wrapped_eq
    (hSpend : Spend cfg b sent b')
    (hSent : sent ≠ some .wrap) :
    b'.wrapped = b.wrapped := by
  cases hSpend with
  | rest => rfl
  | reported _ => rfl
  | keepalive _ _ => rfl
  | wrap _ => exact absurd rfl hSent
  | afterKeepalive _ _ _ => rfl
  | compact _ _ _ => rfl

/- A sent wrap leaves the budget wrapped. -/
theorem Spend.of_wrap
    (hSpend : Spend cfg b (some .wrap) b') :
    b'.wrapped = true := by
  cases hSpend with
  | wrap _ => rfl

/- A compaction follows the wrap, and ends the budget. -/
theorem Spend.of_compact
    (hSpend : Spend cfg b (some .compact) b') :
    b.wrapped = true ∧ cfg.afterWrap = .compact ∧
      b'.Over := by
  cases hSpend with
  | compact hWrapped _ hAfter =>
      exact ⟨hWrapped, hAfter, hWrapped, rfl⟩

end Budget

end Keepwarm

------------------------------------------------------------
-- The Policy's Runs
------------------------------------------------------------

namespace Keepwarm

/- What happens to a session's policy between resets. -/
inductive PolicyEvent where
| check
    (reading : Reading)
    (arm : Option ArmFile)
    (gate : Gate)
    (site : Site)
    (now : Nat)
| ledgerTrip (now : Nat)
| operatorOff
| operatorOn
| wrapped
    (line : String)
    (focus : Option String)
| compacted
    (failed : Option String)
    (now : Nat)

/- `attend keepwarm wrapped`: the wrap's report. -/
def Policy.reportWrapped
    (p : Policy)
    (line : String)
    (focus : Option String) : Policy :=
  { p with
    wrapOutcome := some line
    compactFocus :=
      if focus.isSome then focus else p.compactFocus }

/- `attend keepwarm compacted`: the compaction's report. -/
def Policy.reportCompacted
    (p : Policy)
    (failed : Option String)
    (now : Nat) : Policy :=
  if p.wrappedAt.isSome then
    { p with
      compactedAt := some (p.compactedAt.getD now)
      compactFailed := failed }
  else p

/- A policy's run under one configuration. -/
def policyMachine
    (cfg : Config) :
    StepMachine State PolicyEvent (Option Check) where
  step s e :=
    match e with
    | .check reading arm gate site now =>
        let c := policyStep s reading arm cfg gate site now
        (c.state, some c)
    | .ledgerTrip now =>
        (State.resume (some (s.ledger now)), none)
    | .operatorOff =>
        ({ s with policy := s.policy.stopByOperator }, none)
    | .operatorOn =>
        ({ s with policy := s.policy.clearStop }, none)
    | .wrapped line focus =>
        ({ s with
           policy := s.policy.reportWrapped line focus },
          none)
    | .compacted failed now =>
        ({ s with
           policy := s.policy.reportCompacted failed now },
          none)

/-
  The counted action of a check: a running policy's, and no
  armed window's wake.
-/
def Check.counted
    (c : Check) : Option Action :=
  if c.decision.policy ∧ c.out.observations = [] ∧
      c.decision.action ≠ .none then
    some c.decision.action
  else none

abbrev PolicyTurn :=
  StepMachine.Turn State PolicyEvent (Option Check)

def counted
    (t : PolicyTurn) : Option Action :=
  t.output.bind Check.counted

end Keepwarm

------------------------------------------------------------
-- Every Event Is One Move
------------------------------------------------------------

namespace Keepwarm

/- A counted check's action is its decision's. -/
theorem Check.counted_of_action
    {c : Check}
    {action : Action}
    (hPolicy : c.decision.policy = true)
    (hObserved : c.out.observations = [])
    (hAction : c.decision.action = action)
    (hSome : action ≠ .none) :
    c.counted = some action := by
  unfold Check.counted
  rw [hAction]
  exact if_pos ⟨hPolicy, hObserved, hSome⟩

theorem Check.counted_of_none
    {c : Check}
    (hAction : c.decision.action = .none) :
    c.counted = none := by
  simp [Check.counted, hAction]

/- A judgment moves the stepped state's budget once. -/
theorem Judged.spend
    {q : Poll}
    {reading : Reading}
    {cfg : Config}
    {now : Nat}
    {c : Check}
    (hPolicy : c.decision.policy = true)
    (hJudged : Judged q reading cfg now c) :
    Budget.Spend cfg q.state.policy.budget c.counted
      c.state.policy.budget := by
  have hSent :
      ∀ action,
        q.out.observations = [] →
        c.out = { q.out with changed := true } →
        c.decision.action = action →
        action ≠ .none →
          c.counted = some action := by
    intro action hObserved hOut hAction hSome
    exact Check.counted_of_action hPolicy
      (by rw [hOut]; exact hObserved) hAction hSome
  cases hJudged with
  | armedWake hObserved hState hOut _ =>
      have hNone : c.counted = none := by
        simp [Check.counted, hOut, hObserved]
      rw [hNone, hState]
      exact Budget.Spend.rest
  | quiet _ _ hState _ hAction =>
      rw [Check.counted_of_none hAction, hState]
      exact Budget.Spend.rest
  | stopped _ _ _ _ hState _ hAction =>
      rw [Check.counted_of_none hAction, hState]
      exact Budget.Spend.rest
  | keepalive _ _ hDue _ hWrapped hCount hState hOut hAction =>
      rw [hSent .keepalive hDue.unobserved hOut hAction
        (by decide), hState]
      exact Budget.Spend.keepalive
        (by simp [Policy.budget, hWrapped]) hCount
  | wrap _ _ hDue _ hWrapped hState hOut hAction =>
      rw [hSent .wrap hDue.unobserved hOut hAction
        (by decide), hState]
      exact Budget.Spend.wrap
        (by simp [Policy.budget, hWrapped])
  | afterKeepalive _ hDue _ hWrapped hCount hState hOut
      hAction =>
      have hCompacted :=
        Check.compactedAt_of_afterWrapEnds hDue.more hWrapped
      rw [hSent .keepalive hDue.unobserved hOut hAction
        (by decide), hState]
      exact Budget.Spend.afterKeepalive hWrapped
        (by simp [Policy.budget, hCompacted]) hCount
  | compact _ focus hDue _ hWrapped hAfter _ hState hOut
      hAction _ =>
      have hCompacted :=
        Check.compactedAt_of_afterWrapEnds hDue.more hWrapped
      rw [hSent .compact hDue.unobserved hOut hAction
        (by decide), hState]
      exact Budget.Spend.compact hWrapped
        (by simp [Policy.budget, hCompacted]) hAfter

theorem policyStep_spend
    (s : State)
    (reading : Reading)
    (arm : Option ArmFile)
    (cfg : Config)
    (gate : Gate)
    (site : Site)
    (now : Nat) :
    Budget.Spend cfg s.policy.budget
      (policyStep s reading arm cfg gate site now).counted
      (policyStep s reading arm cfg gate site
        now).state.policy.budget := by
  cases hOff : cfg.whyOff gate with
  | some why =>
      rw [policyStep_of_off hOff]
      have hPolicy :=
        judgeOff_policy (recordCheck s cfg gate) reading arm
          cfg why now
      have hNone :
          (Check.judgeOff (recordCheck s cfg gate) reading
            arm cfg why now).counted = none := by
        simp [Check.counted, hPolicy.2]
      rw [hNone, hPolicy.1]
      exact Budget.Spend.rest
  | none =>
      rw [policyStep_of_on hOff]
      have hSpend :=
        Judged.spend
          (Check.judge_decision _ reading cfg site now)
          (Check.judge_cases
            (policyPoll (recordCheck s cfg gate) reading arm
              now)
            reading cfg site now)
      rcases policyPoll_policy (recordCheck s cfg gate)
        reading arm now with ⟨pending, spent, stopped, hPoll⟩
      rw [hPoll] at hSpend
      exact hSpend

/- A counted compaction carries the reported focus. -/
theorem policyStep_compact
    {s : State}
    {reading : Reading}
    {arm : Option ArmFile}
    {cfg : Config}
    {gate : Gate}
    {site : Site}
    {now : Nat}
    (hCompact :
      (policyStep s reading arm cfg gate site now).counted =
        some .compact) :
    ∃ focus,
      s.policy.compactFocus = some focus ∧
        (policyStep s reading arm cfg gate site
          now).decision.text = some focus := by
  have hAction :
      (policyStep s reading arm cfg gate site
        now).decision.action = .compact := by
    unfold Check.counted at hCompact
    split at hCompact
    · exact Option.some.inj hCompact
    · simp at hCompact
  cases hOff : cfg.whyOff gate with
  | some why =>
      rw [policyStep_of_off hOff] at hCompact
      have hPolicy :=
        judgeOff_policy (recordCheck s cfg gate) reading arm
          cfg why now
      simp [Check.counted, hPolicy.2] at hCompact
  | none =>
      rw [policyStep_of_on hOff] at hAction ⊢
      rcases policyPoll_policy (recordCheck s cfg gate)
        reading arm now with ⟨pending, spent, stopped, hPoll⟩
      cases Check.judge_cases
          (policyPoll (recordCheck s cfg gate) reading arm
            now)
          reading cfg site now with
      | armedWake _ _ _ hOther => simp [hOther] at hAction
      | quiet _ _ _ _ hOther => simp [hOther] at hAction
      | stopped _ _ _ _ _ _ hOther =>
          simp [hOther] at hAction
      | keepalive _ _ _ _ _ _ _ _ hOther =>
          simp [hOther] at hAction
      | wrap _ _ _ _ _ _ _ hOther =>
          simp [hOther] at hAction
      | afterKeepalive _ _ _ _ _ _ _ hOther =>
          simp [hOther] at hAction
      | compact _ focus _ _ _ _ hFocus _ _ _ hText =>
          rw [hPoll] at hFocus
          exact ⟨focus, hFocus, hText⟩

/- Every event of a run is one move of the budget. -/
theorem policyMachine_spend
    (cfg : Config)
    (s : State)
    (e : PolicyEvent) :
    Budget.Spend cfg s.policy.budget
      (counted ((policyMachine cfg).turn s e))
      ((policyMachine cfg).step s e).1.policy.budget := by
  cases e with
  | check reading arm gate site now =>
      exact policyStep_spend s reading arm cfg gate site now
  | ledgerTrip now =>
      have hSame := State.policy_resume_ledger s now
      change
        Budget.Spend cfg s.policy.budget none
          (State.resume (some (s.ledger now))).policy.budget
      rw [hSame]
      exact Budget.Spend.rest
  | operatorOff => exact Budget.Spend.rest
  | operatorOn => exact Budget.Spend.rest
  | wrapped line focus => exact Budget.Spend.rest
  | compacted failed now =>
      change
        Budget.Spend cfg s.policy.budget none
          (s.policy.reportCompacted failed now).budget
      unfold Policy.reportCompacted
      split
      · rename_i hWrapped
        exact Budget.Spend.reported hWrapped
      · exact Budget.Spend.rest

end Keepwarm

------------------------------------------------------------
-- Bounded Runs
------------------------------------------------------------

namespace Keepwarm

variable (cfg : Config) (s : State)
variable (events : List PolicyEvent)

/- A keepalive before the wrap, by the marks it met. -/
def keptBeforeWrap
    (t : PolicyTurn) : Bool :=
  decide (counted t = some .keepalive) &&
    !t.before.policy.wrappedAt.isSome

theorem countP_keptBeforeWrap_le :
    ((policyMachine cfg).trace s events).countP
        keptBeforeWrap ≤
      s.policy.budget.keepalivesLeft cfg := by
  refine StepMachine.countP_le_of_potential
    (fun s => s.policy.budget.keepalivesLeft cfg) ?_ s
    events
  intro s e
  exact (policyMachine_spend cfg s e).keepalivesLeft_le

theorem countP_keepalive_le :
    ((policyMachine cfg).trace s events).countP
        (fun t => decide (counted t = some .keepalive)) ≤
      s.policy.budget.keepalivesLeft cfg +
        s.policy.budget.afterLeft cfg := by
  refine StepMachine.countP_le_of_potential
    (fun s =>
      s.policy.budget.keepalivesLeft cfg +
        s.policy.budget.afterLeft cfg) ?_ s events
  intro s e
  exact (policyMachine_spend cfg s e).allLeft_le

theorem countP_wrap_le :
    ((policyMachine cfg).trace s events).countP
        (fun t => decide (counted t = some .wrap)) ≤
      (!s.policy.budget.wrapped).toNat := by
  refine StepMachine.countP_le_of_potential
    (fun s =>
      (!s.policy.budget.wrapped).toNat) ?_ s events
  intro s e
  exact (policyMachine_spend cfg s e).wrapLeft_le

theorem countP_compact_le :
    ((policyMachine cfg).trace s events).countP
        (fun t => decide (counted t = some .compact)) ≤
      (!s.policy.budget.compacted).toNat := by
  refine StepMachine.countP_le_of_potential
    (fun s =>
      (!s.policy.budget.compacted).toNat) ?_ s events
  intro s e
  exact (policyMachine_spend cfg s e).compactLeft_le

variable {cfg s events}

/- A run that ends wrapped has sent the wrap. -/
theorem exists_wrap_of_wrapped
    (hStart : s.policy.budget.wrapped = false)
    (hEnd :
      ((policyMachine cfg).final s
        events).policy.budget.wrapped = true) :
    ∃ w ∈ (policyMachine cfg).trace s events,
      counted w = some .wrap := by
  by_contra hNone
  have hKept :=
    StepMachine.invariant_final (m := policyMachine cfg)
      (fun s => s.policy.budget.wrapped = false)
      (fun s e =>
        counted ((policyMachine cfg).turn s e) ≠ some .wrap)
      (fun s e hInv hOk =>
        ((policyMachine_spend cfg s e).wrapped_eq hOk).trans
          hInv)
      (by
        intro t hMem hWrap
        rw [← StepMachine.eq_turn_of_mem_trace hMem] at hWrap
        exact hNone ⟨t, hMem, hWrap⟩)
      hStart
  simp [hKept] at hEnd

/- A run's turns are moves of the budget. -/
theorem spend_of_mem_trace
    {t : PolicyTurn}
    (hMem : t ∈ (policyMachine cfg).trace s events) :
    Budget.Spend cfg t.before.policy.budget (counted t)
      t.after.policy.budget := by
  rw [StepMachine.eq_turn_of_mem_trace hMem]
  exact policyMachine_spend cfg t.before t.input

/- Once the budget is over a run sends nothing more. -/
theorem counted_eq_none_of_over
    (hOver : s.policy.budget.Over)
    {t : PolicyTurn}
    (hMem : t ∈ (policyMachine cfg).trace s events) :
    counted t = none := by
  have hBefore :=
    (StepMachine.invariant_of_mem_trace
      (m := policyMachine cfg)
      (fun s => s.policy.budget.Over)
      (fun _ _ => True)
      (fun s e hInv _ =>
        ((policyMachine_spend cfg s e).over hInv).2)
      (fun _ _ => trivial) hOver hMem).1
  exact ((spend_of_mem_trace hMem).over hBefore).1

/- After a wrap only the keepalives after it are left. -/
theorem countP_keepalive_after_wrap
    {earlier later : List PolicyTurn}
    {t : PolicyTurn}
    (hTrace :
      (policyMachine cfg).trace s events =
        earlier ++ t :: later)
    (hWrap : counted t = some .wrap) :
    later.countP
        (fun u => decide (counted u = some .keepalive)) ≤
      cfg.afterMax := by
  have hSpend :=
    spend_of_mem_trace (t := t) (by rw [hTrace]; simp)
  rw [hWrap] at hSpend
  rcases StepMachine.trace_eq_append_cons hTrace with
    ⟨_, second, _, _, _, rfl⟩
  have hCount := countP_keepalive_le cfg t.after second
  have hLeft :
      t.after.policy.budget.keepalivesLeft cfg = 0 := by
    simp [Budget.keepalivesLeft, hSpend.of_wrap]
  have hBound :
      t.after.policy.budget.afterLeft cfg ≤ cfg.afterMax :=
    Nat.sub_le _ _
  omega

/- A counted compaction's turn read the reported focus. -/
theorem focus_of_compact
    {t : PolicyTurn}
    (hMem : t ∈ (policyMachine cfg).trace s events)
    (hCompact : counted t = some .compact) :
    ∃ focus,
      t.before.policy.compactFocus = some focus ∧
        t.output.bind (fun c => c.decision.text) =
          some focus := by
  have hTurn := StepMachine.eq_turn_of_mem_trace hMem
  generalize hState : t.before = state at hTurn
  generalize hEvent : t.input = event at hTurn
  subst hTurn
  cases event with
  | check reading arm gate site now =>
      exact policyStep_compact hCompact
  | ledgerTrip now => simp [counted, StepMachine.turn,
      policyMachine] at hCompact
  | operatorOff => simp [counted, StepMachine.turn,
      policyMachine] at hCompact
  | operatorOn => simp [counted, StepMachine.turn,
      policyMachine] at hCompact
  | wrapped line focus => simp [counted, StepMachine.turn,
      policyMachine] at hCompact
  | compacted failed now => simp [counted, StepMachine.turn,
      policyMachine] at hCompact

/-
  From the operator's prompt on, whatever the readings, the
  arm files, the gates and the operator's words in between,
  a policy sends its keepalives, one wrap, the keepalives
  after it and one compaction, in that order and no more.
-/
theorem bounded_autonomy
    (cfg : Config)
    (s : State)
    (p : Policy)
    (promptAt : Nat)
    (hReset : s.policy = p.reset promptAt)
    (events : List PolicyEvent) :
    ((policyMachine cfg).trace s events).countP
        keptBeforeWrap ≤ cfg.max ∧
    ((policyMachine cfg).trace s events).countP
        (fun t => decide (counted t = some .wrap)) ≤ 1 ∧
    (∀ earlier t later,
      (policyMachine cfg).trace s events =
        earlier ++ t :: later →
      counted t = some .wrap →
        later.countP
            (fun u => decide (counted u = some .keepalive)) ≤
          cfg.afterMax) ∧
    ((policyMachine cfg).trace s events).countP
        (fun t => decide (counted t = some .compact)) ≤ 1 ∧
    ∀ earlier t later,
      (policyMachine cfg).trace s events =
        earlier ++ t :: later →
      counted t = some .compact →
        (∃ w ∈ earlier, counted w = some .wrap) ∧
        cfg.afterWrap = .compact ∧
        (∃ focus,
          t.before.policy.compactFocus = some focus ∧
          t.output.bind (fun c => c.decision.text) =
            some focus) ∧
        ∀ u ∈ later, counted u = none := by
  have hBudget : s.policy.budget = ⟨0, false, 0, false⟩ := by
    rw [hReset]
    rfl
  refine ⟨?_, ?_, ?_, ?_, ?_⟩
  · have hCount := countP_keptBeforeWrap_le cfg s events
    simpa [hBudget, Budget.keepalivesLeft] using hCount
  · have hCount := countP_wrap_le cfg s events
    simpa [hBudget] using hCount
  · intro earlier t later hTrace hWrap
    exact countP_keepalive_after_wrap hTrace hWrap
  · have hCount := countP_compact_le cfg s events
    simpa [hBudget] using hCount
  · intro earlier t later hTrace hCompact
    have hMem : t ∈ (policyMachine cfg).trace s events := by
      rw [hTrace]
      simp
    have hSpend := spend_of_mem_trace hMem
    rw [hCompact] at hSpend
    rcases hSpend.of_compact with ⟨hWrapped, hAfter, hOver⟩
    have hFocus := focus_of_compact hMem hCompact
    rcases StepMachine.trace_eq_append_cons hTrace with
      ⟨first, second, _, rfl, hTurn, rfl⟩
    have hBefore :
        t.before = (policyMachine cfg).final s first := by
      rw [hTurn]
      rfl
    rw [hBefore] at hWrapped
    refine ⟨?_, hAfter, hFocus, ?_⟩
    · exact exists_wrap_of_wrapped (by simp [hBudget])
        hWrapped
    · intro u hLater
      exact counted_eq_none_of_over hOver hLater

/- One keepalive, the wrap, one more, and a compaction. -/
def compactingConfig : Config :=
  { defaultConfig with
    max := 1
    afterMax := 1
    afterWrap := .compact
    sessionSkills := .listed ["wrap"] }

/- A session left alone since its prompt. -/
def leftAlone : State :=
  { baselined := true
    lastSeenAt := 10000
    ctx := 200000
    policy := Policy.reset {} 9000 }

/- A check at a due point of the last request at `lastAt`. -/
def dueCheck
    (lastAt : Nat) : PolicyEvent :=
  .check (warmReading lastAt) none .off plainSite
    (lastAt + 3000)

/- The events up to the compaction. -/
def untilCompact : List PolicyEvent :=
  [ dueCheck 10000, .ledgerTrip 13000, dueCheck 13010,
    .wrapped "saved" (some "focus"), dueCheck 16020 ]

/- Left alone, the session compacts after its wrap. -/
theorem compactingConfig_bounded :
    (∃ w ∈ (policyMachine compactingConfig).trace leftAlone
        untilCompact,
      counted w = some .wrap) ∧
    ∀ u ∈ (policyMachine compactingConfig).trace
        ((policyMachine compactingConfig).final leftAlone
          (untilCompact ++ [dueCheck 19030]))
        [dueCheck 22040],
      counted u = none := by
  have hAll :=
    bounded_autonomy compactingConfig leftAlone {} 9000 rfl
      (untilCompact ++
        dueCheck 19030 :: [dueCheck 22040])
  have hCompact :=
    hAll.2.2.2.2
      ((policyMachine compactingConfig).trace leftAlone
        untilCompact)
      ((policyMachine compactingConfig).turn
        ((policyMachine compactingConfig).final leftAlone
          untilCompact)
        (dueCheck 19030))
      ((policyMachine compactingConfig).trace
        ((policyMachine compactingConfig).final leftAlone
          (untilCompact ++ [dueCheck 19030]))
        [dueCheck 22040])
      (by
        rw [StepMachine.trace_append,
          StepMachine.final_append]
        rfl)
      (by decide)
  exact ⟨hCompact.1, hCompact.2.2.2⟩

end Keepwarm
