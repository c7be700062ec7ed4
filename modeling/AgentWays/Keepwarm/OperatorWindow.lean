import AgentWays.Lib.StepMachine
import AgentWays.Keepwarm.PolicySpec

/-
  The operator's armed window under the policy.

  The arm file is the operator's until a step of either kind
  rewrites it. The policy's own steps only disarm it. A plain
  step's arm after a paid cold write may reach further than
  the operator's window and then takes the file over, with
  the mark that makes the policy read it as no window.

  Key definitions include:
    * `Keepwarm.WindowEvent`
    * `Keepwarm.operatorMachine`
    * `Keepwarm.ArmedWord`
    * `Keepwarm.Extends`

  Main declarations:
    * `Keepwarm.operatorMachine_keeps`
    * `Keepwarm.operator_window_keeps_force`
-/

------------------------------------------------------------
-- Steps Over The Arm File
------------------------------------------------------------

namespace Keepwarm

/-
  A plain step, or the policy's with the gate off, from any
  state; `written` says its arm write lands.
-/
inductive WindowEvent where
| plain
    (s : State)
    (reading : Reading)
    (now : Nat)
    (written : Bool)
| policy
    (s : State)
    (reading : Reading)
    (cfg : Config)
    (site : Site)
    (now : Nat)
    (written : Bool)

def WindowEvent.now : WindowEvent → Nat
| plain _ _ now _ => now
| policy _ _ _ _ now _ => now

/- What a step says: its arm write, and a policy's check. -/
structure WindowWord where
  armWrite : Option Nat
  check : Option Check

/- The arm file under steps of both kinds. -/
def operatorMachine :
    StepMachine (Option ArmFile) WindowEvent WindowWord where
  step arm e :=
    match e with
    | .plain s reading now written =>
        let q := s.step reading arm now
        (if written then settleArm arm arm q.out now
          else arm,
          { armWrite := q.out.armWrite, check := none })
    | .policy s reading cfg site now written =>
        let c := policyStep s reading arm cfg .off site now
        (if written then settleArm arm arm c.out now
          else arm,
          { armWrite := c.out.armWrite, check := some c })

abbrev WindowTurn :=
  StepMachine.Turn (Option ArmFile) WindowEvent WindowWord

/- The step's new entries arm a window past `deadline`. -/
def State.armsPast
    (s : State)
    (reading : Reading)
    (deadline now : Nat) : Bool :=
  s.baselined &&
    autoArmsIn now true deadline s.pingedAt s.ctx
      (Poll.newEntries s reading)

/-
  A plain step takes the file over: it is one, it comes
  inside the window, and a paid cold write it newly reads
  arms a window past the file's.
-/
def Extends
    (deadline : Nat) : WindowEvent → Prop
| .plain s reading now _ =>
    now < deadline ∧ s.armsPast reading deadline now = true
| .policy s reading cfg _ now _ =>
    cfg.whyOff .off ≠ none ∧ cfg.keepwarmOn = true ∧
      now < deadline ∧
      s.armsPast reading deadline now = true

/- A check's word inside an armed window. -/
structure ArmedWord
    (c : Check)
    (now : Nat) : Prop where
  policy : c.decision.policy = true
  running : c.decision.state = .running
  word :
    (c.out.observations ≠ [] ∧
        c.decision.action = .keepalive ∧
        c.decision.reason =
          "an armed window (attend keepwarm on) overrides the count") ∨
      (c.out.observations = [] ∧
        c.decision.action = .none ∧
        c.decision.reason =
          "an armed window (attend keepwarm on) " ++
            "overrides the count for " ++
            fmtDuration (c.state.deadline - now))

end Keepwarm

------------------------------------------------------------
-- The File Across One Step
------------------------------------------------------------

namespace Keepwarm

/- A step's settling without a write leaves the file. -/
theorem settleArm_of_none
    {out : Outcome}
    (hNone : out.armWrite = none)
    (arm : Option ArmFile)
    (now : Nat) :
    settleArm arm arm out now = arm := by
  simp [settleArm, hNone]

/- A plain step that arms nothing past the file's window. -/
theorem step_armWrite
    {s : State}
    {reading : Reading}
    {arm : Option ArmFile}
    {now : Nat}
    (hOpen : now < armDeadline arm)
    (hNot :
      s.armsPast reading (armDeadline arm) now = false) :
    (s.step reading arm now).out.armWrite = none ∨
      (s.step reading arm now).out.armWrite = some 0 := by
  have hPinged :
      (Poll.readArm s arm now).state.pingedAt =
        s.pingedAt := by
    rw [Poll.readArm_state]
    exact if_neg (by omega)
  have hKeeps :=
    (State.stepWith_keepsArm s reading arm now true
      (by
        intro hBaselined
        rw [hPinged]
        simpa [State.armsPast, hBaselined] using hNot)).window
  rw [Poll.readArm_out] at hKeeps
  rcases hKeeps with ⟨_, hNone⟩ | ⟨_, hZero⟩
  · exact Or.inl hNone
  · exact Or.inr hZero

/- A judgment writes what its step did. -/
theorem Judged.armWrite
    {q : Poll}
    {reading : Reading}
    {cfg : Config}
    {now : Nat}
    {c : Check}
    (hJudged : Judged q reading cfg now c) :
    c.out.armWrite = q.out.armWrite := by
  cases hJudged with
  | armedWake _ _ hOut _ => rw [hOut]
  | quiet _ _ _ hOut _ => rw [hOut]
  | stopped _ _ _ _ _ hOut _ => rw [hOut]
  | keepalive _ _ _ _ _ _ _ hOut _ => rw [hOut]
  | wrap _ _ _ _ _ _ hOut _ => rw [hOut]
  | afterKeepalive _ _ _ _ _ _ hOut _ => rw [hOut]
  | compact _ _ _ _ _ _ _ _ hOut _ _ => rw [hOut]

/- The policy's step writes no window but the disarmed one. -/
theorem policyStep_armWrite
    {s : State}
    {reading : Reading}
    {arm : Option ArmFile}
    {cfg : Config}
    {site : Site}
    {now : Nat}
    (hOpen : now < armDeadline arm)
    (hNot :
      cfg.whyOff .off ≠ none → cfg.keepwarmOn = true →
        s.armsPast reading (armDeadline arm) now = false) :
    (policyStep s reading arm cfg .off site
        now).out.armWrite = none ∨
      (policyStep s reading arm cfg .off site
        now).out.armWrite = some 0 := by
  cases hOff : cfg.whyOff .off with
  | none =>
      rw [policyStep_of_on hOff,
        (Check.judge_cases _ reading cfg site now).armWrite]
      rcases policyPoll_window (recordCheck s cfg .off)
        reading arm now with ⟨_, hNone⟩ | ⟨_, hZero⟩
      · exact Or.inl hNone
      · exact Or.inr hZero
  | some why =>
      rw [policyStep_of_off hOff]
      cases hKeepwarm : cfg.keepwarmOn with
      | false =>
          left
          simp [Check.judgeOff, hKeepwarm]
      | true =>
          simp only [Check.judgeOff, hKeepwarm,
            Bool.not_true, Bool.false_eq_true, if_false]
          exact step_armWrite
            (s := recordCheck s cfg .off) hOpen
            (hNot (by simp [hOff]) hKeepwarm)

/- The operator's file outlives a step inside its window. -/
theorem operatorMachine_keeps
    {a : ArmFile}
    {e : WindowEvent}
    (hOpen : e.now < a.deadline)
    (hExtends : ¬ Extends a.deadline e)
    (hArmed :
      (operatorMachine.step (some a) e).2.armWrite ≠
        some 0) :
    (operatorMachine.step (some a) e).1 = some a := by
  cases e with
  | plain s reading now written =>
      have hNot :
          s.armsPast reading a.deadline now = false := by
        by_contra hArms
        exact hExtends ⟨hOpen, by simpa using hArms⟩
      have hWrite :
          (s.step reading (some a) now).out.armWrite =
              none ∨
            (s.step reading (some a) now).out.armWrite =
              some 0 :=
        step_armWrite hOpen hNot
      have hNone := hWrite.resolve_right hArmed
      change
        (if written then
          settleArm (some a) (some a)
            (s.step reading (some a) now).out now
          else some a) = some a
      rw [settleArm_of_none hNone, ite_self]
  | policy s reading cfg site now written =>
      have hNot :
          cfg.whyOff .off ≠ none → cfg.keepwarmOn = true →
            s.armsPast reading a.deadline now = false := by
        intro hOff hKeepwarm
        by_contra hArms
        exact hExtends
          ⟨hOff, hKeepwarm, hOpen, by simpa using hArms⟩
      have hWrite :
          (policyStep s reading (some a) cfg .off site
              now).out.armWrite = none ∨
            (policyStep s reading (some a) cfg .off site
              now).out.armWrite = some 0 :=
        policyStep_armWrite hOpen hNot
      have hNone := hWrite.resolve_right hArmed
      change
        (if written then
          settleArm (some a) (some a)
            (policyStep s reading (some a) cfg .off site
              now).out now
          else some a) = some a
      rw [settleArm_of_none hNone, ite_self]

end Keepwarm

------------------------------------------------------------
-- Checks Inside The Window
------------------------------------------------------------

namespace Keepwarm

/- An open window is the judgment's first word. -/
theorem Check.judge_of_open
    {q : Poll}
    {now : Nat}
    (hOpen : now < q.state.deadline)
    (reading : Reading)
    (cfg : Config)
    (site : Site) :
    ArmedWord (judge q reading cfg site now) now ∧
      (judge q reading cfg site now).state = q.state := by
  unfold judge
  dsimp only
  split
  · rename_i hObserved
    refine ⟨⟨rfl, rfl, Or.inl ⟨?_, rfl, rfl⟩⟩, rfl⟩
    simp [hObserved]
  · rename_i hObserved
    rw [if_pos hOpen]
    exact ⟨⟨rfl, rfl, Or.inr ⟨hObserved, rfl, rfl⟩⟩, rfl⟩

/- The policy's step inside the operator's window. -/
theorem policyStep_of_operatorArm
    {a : ArmFile}
    {s : State}
    {reading : Reading}
    {cfg : Config}
    {site : Site}
    {now : Nat}
    (hOperator : a.auto = false)
    (hOpen : now < a.deadline)
    (hArmed :
      (policyStep s reading (some a) cfg .off site
        now).out.armWrite ≠ some 0) :
    (cfg.whyOff .off = none →
        ArmedWord
          (policyStep s reading (some a) cfg .off site now)
          now) ∧
      (policyStep s reading (some a) cfg .off site
          now).state.policy.count = s.policy.count ∧
      (policyStep s reading (some a) cfg .off site
          now).state.policy.wrappedAt =
        s.policy.wrappedAt := by
  cases hOff : cfg.whyOff .off with
  | some why =>
      refine ⟨fun hOn => by simp at hOn, ?_⟩
      rw [policyStep_of_off hOff,
        (judgeOff_policy (recordCheck s cfg .off) reading
          (some a) cfg why now).1]
      exact ⟨rfl, rfl⟩
  | none =>
      rw [policyStep_of_on hOff] at hArmed ⊢
      rw [(Check.judge_cases _ reading cfg site
        now).armWrite] at hArmed
      have hRead :
          (operatorArm (recordCheck s cfg .off) (some a)).2 =
            some a := by
        simp [operatorArm, hOperator]
      have hWindow :
          now <
            (policyPoll (recordCheck s cfg .off) reading
              (some a) now).state.deadline := by
        rcases policyPoll_window (recordCheck s cfg .off)
          reading (some a) now with ⟨hSame, _⟩ | ⟨_, hZero⟩
        · rw [hSame, hRead]
          exact hOpen
        · exact absurd hZero hArmed
      have hWord :=
        Check.judge_of_open hWindow reading cfg site
      rcases policyPoll_policy (recordCheck s cfg .off)
        reading (some a) now with ⟨_, _, _, hPolicy⟩
      refine ⟨fun _ => hWord.1, ?_, ?_⟩
      · rw [hWord.2, hPolicy]
        rfl
      · rw [hWord.2, hPolicy]
        rfl

end Keepwarm

------------------------------------------------------------
-- Whole Runs
------------------------------------------------------------

namespace Keepwarm

/-
  The check `c` from the state `s` keeps to the operator's
  window: where the policy runs it says so, and it moves
  neither the count nor the wrap.
-/
def KeepsForce
    (s : State)
    (cfg : Config)
    (c : Check)
    (now : Nat) : Prop :=
  (cfg.whyOff .off = none → ArmedWord c now) ∧
    c.state.policy.count = s.policy.count ∧
    c.state.policy.wrappedAt = s.policy.wrappedAt

/-
  Up to the first step that disarms it, the operator's
  window keeps its force at every check inside it, in every
  run none of whose earlier steps extends it.
-/
theorem operator_window_keeps_force
    (a : ArmFile)
    (hOperator : a.auto = false)
    (events : List WindowEvent)
    (hClock :
      (events.map WindowEvent.now).Pairwise (· ≤ ·))
    (hExtends : ∀ e ∈ events, ¬ Extends a.deadline e)
    (earlier later : List WindowTurn)
    (t : WindowTurn)
    (hTrace :
      operatorMachine.trace (some a) events =
        earlier ++ t :: later)
    (hArmed :
      ∀ u ∈ earlier ++ [t], u.output.armWrite ≠ some 0)
    (s : State)
    (reading : Reading)
    (cfg : Config)
    (site : Site)
    (now : Nat)
    (written : Bool)
    (hInput :
      t.input = .policy s reading cfg site now written)
    (hOpen : now < a.deadline) :
    ∃ c, t.output.check = some c ∧
      KeepsForce s cfg c now := by
  rcases StepMachine.trace_eq_append_cons hTrace with
    ⟨first, second, hEvents, hEarlier, hTurn, _⟩
  -- Every earlier step came inside the window too.
  have hInside :
      ∀ e ∈ first, e.now < a.deadline := by
    intro e hMem
    rw [hEvents, List.map_append, List.pairwise_append]
      at hClock
    have hLe :=
      hClock.2.2 e.now (List.mem_map_of_mem hMem)
        t.input.now (by simp)
    rw [hInput] at hLe
    exact Nat.lt_of_le_of_lt hLe hOpen
  have hFile :
      operatorMachine.final (some a) first = some a := by
    apply StepMachine.invariant_final
      (fun arm => arm = some a)
      (fun arm e =>
        e.now < a.deadline ∧ ¬ Extends a.deadline e ∧
          (operatorMachine.step arm e).2.armWrite ≠ some 0)
    · rintro arm e rfl ⟨hNow, hNot, hWrite⟩
      exact operatorMachine_keeps hNow hNot hWrite
    · intro u hMem
      have hOfFirst : u.input ∈ first :=
        StepMachine.input_mem_of_mem_trace hMem
      refine ⟨hInside u.input hOfFirst, ?_, ?_⟩
      · apply hExtends
        rw [hEvents]
        simp [hOfFirst]
      · have hWrite :=
          hArmed u (by rw [hEarlier]; simp [hMem])
        rw [StepMachine.eq_turn_of_mem_trace hMem] at hWrite
        exact hWrite
    · rfl
  have hLast := hArmed t (by simp)
  rw [hFile, hInput] at hTurn
  rw [hTurn] at hLast ⊢
  exact ⟨_, rfl,
    policyStep_of_operatorArm hOperator hOpen hLast⟩

/- The operator's window from 10000 to 20000. -/
def operatorFile : ArmFile :=
  { deadline := 20000
    armedAt := 10000
    windowSecs := 10000
    auto := false }

/- A session inside that window. -/
def insideWindow : State :=
  { deadline := 20000
    baselined := true
    lastSeenAt := 10000
    ctx := 100000 }

/- A plain step and a check that read nothing cold. -/
def standingRun : List WindowEvent :=
  [ .plain insideWindow (warmReading 10000) 11000 true,
    .policy insideWindow (warmReading 10000) defaultConfig
      plainSite 12000 true ]

theorem standingRun_keeps_force :
    ∃ c,
      (operatorMachine.turn
          (operatorMachine.final (some operatorFile)
            (standingRun.take 1))
          (.policy insideWindow (warmReading 10000)
            defaultConfig plainSite 12000
            true)).output.check = some c ∧
        KeepsForce insideWindow defaultConfig c 12000 := by
  apply operator_window_keeps_force operatorFile rfl
    standingRun (by decide) ?_
    (operatorMachine.trace (some operatorFile)
      (standingRun.take 1))
    [] _ rfl (by decide) _ _ _ _ _ _ rfl (by decide)
  intro e hMem
  simp only [standingRun, List.mem_cons, List.not_mem_nil,
    or_false] at hMem
  rcases hMem with rfl | rfl
  · unfold Extends
    decide
  · exact fun hExtends => hExtends.1 rfl

/- A request that rewrote the whole context cold. -/
def coldReading : Reading :=
  { warmReading 10990 with
    tokensUsed := 100000
    usageTail :=
      [ { atEpoch := 10990
          model := ""
          input := 0
          cacheRead := 0
          cacheCreation := 100000
          output := 1
          tier := "1h" } ] }

/- The session once a plain step has read that request. -/
def afterCold : State :=
  (insideWindow.step coldReading (some operatorFile)
    11000).state

/- A cold write read by a plain step, then a check. -/
def extendingRun : List WindowEvent :=
  [ .plain insideWindow coldReading 11000 true,
    .policy afterCold coldReading defaultConfig plainSite
      14000 true ]

/-
  The sensor's longer arm takes the operator's file over,
  and inside the operator's window the check is counted.
-/
theorem extendingRun_loses_force :
    (extendingRun.map WindowEvent.now).Pairwise (· ≤ ·) ∧
      (∀ u ∈ operatorMachine.trace (some operatorFile)
          extendingRun,
        u.output.armWrite ≠ some 0) ∧
      14000 < operatorFile.deadline ∧
      ∃ c,
        ((operatorMachine.trace (some operatorFile)
            extendingRun).getLast?.bind
          (fun t => t.output.check)) = some c ∧
        c.decision.action = .keepalive ∧
        c.out.observations = [] ∧
        afterCold.policy.count = 0 ∧
        c.state.policy.count = 1 := by
  refine ⟨by decide, by decide, by decide, ?_⟩
  exact ⟨_, rfl, by decide, by decide, by decide, by decide⟩

end Keepwarm
