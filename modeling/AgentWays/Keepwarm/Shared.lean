import AgentWays.Keepwarm.Bounded
import AgentWays.Keepwarm.PingSpec

/-
  Two judges over one session's files.

  The mod's policy check and the sensor's poll take turns on
  the ledger and the arm file. The check resumes the ledger;
  the sensor keeps a state of its own and reads back only the
  policy, so a poll that rewrites the ledger writes its own
  pending wake over the one the check left there. `Careful`
  says that no poll and no plain check does so.

  Key definitions include:
    * `Keepwarm.Shared`
    * `Keepwarm.policyCheck`
    * `Keepwarm.pollWith`
    * `Keepwarm.sharedMachine`
    * `Keepwarm.Careful`
    * `Keepwarm.Held`

  Main declarations:
    * `Keepwarm.held_step`
    * `Keepwarm.keepalive_decided_once`
-/

------------------------------------------------------------
-- The Shared Files
------------------------------------------------------------

namespace Keepwarm

/- A session's files and the sensor's own state. -/
structure Shared where
  arm : Option ArmFile
  ledger : Option Ledger
  sensor : State
deriving DecidableEq

/- The mod's read-step-write; the ledger is rewritten. -/
def policyCheck
    (x : Shared)
    (reading : Reading)
    (cfg : Config)
    (gate : Gate)
    (site : Site)
    (now : Nat) : Shared × Check :=
  let c :=
    policyStep (State.resume x.ledger) reading x.arm cfg
      gate site now
  let s : State :=
    { c.state with
      policy :=
        { c.state.policy with
          oldHost :=
            decide (cfg.sessionSkills = .notChecked) } }
  let out : Outcome := { c.out with changed := true }
  ({ x with
     arm := settleArm x.arm x.arm out now
     ledger := settleLedger x.ledger s out now },
    c)

/- The sensor's read-step-write; the policy is read back. -/
def pollWith
    (x : Shared)
    (reading : Reading)
    (now : Nat) : Shared :=
  let s : State :=
    { x.sensor with
      policy := (x.ledger.map Ledger.policy).getD {} }
  let q := s.step reading x.arm now
  { arm := settleArm x.arm x.arm q.out now
    ledger := settleLedger x.ledger q.state q.out now
    sensor := q.state }

/- One critical section, a sensor's start, or an edit. -/
inductive SharedEvent where
| check
    (reading : Reading)
    (cfg : Config)
    (gate : Gate)
    (site : Site)
    (now : Nat)
| poll
    (reading : Reading)
    (now : Nat)
| sensorStart (now : Nat)
| operatorArm
    (arm : ArmFile)
    (now : Nat)

namespace SharedEvent

def now : SharedEvent → Nat
| check _ _ _ _ now => now
| poll _ now => now
| sensorStart now => now
| operatorArm _ now => now

/- The transcript an event reads ends at `lastAt`. -/
def Settled
    (lastAt : Nat) : SharedEvent → Prop
| check reading _ _ _ _ => Keepwarm.Settled lastAt reading
| poll reading _ => Keepwarm.Settled lastAt reading
| sensorStart _ => True
| operatorArm _ _ => True

end SharedEvent

def sharedMachine :
    StepMachine Shared SharedEvent (Option Check) where
  step x e :=
    match e with
    | .check reading cfg gate site now =>
        let r := policyCheck x reading cfg gate site now
        (r.1, some r.2)
    | .poll reading now => (pollWith x reading now, none)
    | .sensorStart _ =>
        ({ x with sensor := State.fromLedger x.ledger },
          none)
    | .operatorArm arm _ => ({ x with arm := some arm }, none)

abbrev SharedTurn :=
  StepMachine.Turn Shared SharedEvent (Option Check)

/- Whether a turn decided a counted keepalive. -/
def decidesKeepalive
    (t : SharedTurn) : Bool :=
  decide
    (t.output.bind Check.counted = some .keepalive)

end Keepwarm

------------------------------------------------------------
-- Careful Turns
------------------------------------------------------------

namespace Keepwarm

/-
  A keepalive waits for its turn in the ledger, the policy
  runs on, and the cache has not lapsed.
-/
structure PendingKeepalive
    (lastAt now : Nat)
    (x : Shared) : Prop where
  pinged : (State.resume x.ledger).pingedAt.isSome = true
  pending : (State.resume x.ledger).policy.pending = true
  running : (State.resume x.ledger).policy.stopped = none
  warm : now < lastAt + (ttlSecs - gateMarginSecs)

/-
  While a keepalive is pending: a check runs the policy, or
  no cache wake at all, or keeps the ledger's wake, and a
  poll keeps a wake of its own or is left undisturbed.
-/
def Careful
    (lastAt : Nat)
    (x : Shared) : SharedEvent → Prop
| .check _ cfg gate _ now =>
    PendingKeepalive lastAt now x →
      cfg.whyOff gate = none ∨ cfg.keepwarmOn = false ∨
        ∃ pinged,
          KeepsPing (State.resume x.ledger) x.arm now pinged
| .poll reading now =>
    PendingKeepalive lastAt now x →
      (∃ pinged,
        KeepsPing x.sensor x.arm now pinged ∧
          Unanswered x.sensor reading pinged) ∨
      Undisturbed x.sensor reading x.arm now
| .sensorStart _ => True
| .operatorArm _ _ => True

/-
  A state that decides no further keepalive: one is pending,
  or the policy stopped, or the cache lapsed.
-/
structure HeldState
    (lastAt now : Nat)
    (s : State) : Prop where
  baselined : s.baselined = true
  seen : lastAt ≤ s.lastSeenAt
  mark :
    (s.pingedAt.isSome = true ∧ s.policy.pending = true) ∨
      s.policy.stopped.isSome = true ∨
      lastAt + (ttlSecs - gateMarginSecs) ≤ now

/- The ledger's state decides no further keepalive. -/
def Held
    (lastAt now : Nat)
    (x : Shared) : Prop :=
  HeldState lastAt now (State.resume x.ledger)

theorem HeldState.mono
    {lastAt past now : Nat}
    {s : State}
    (hHeld : HeldState lastAt past s)
    (hClock : past ≤ now) :
    HeldState lastAt now s := by
  refine ⟨hHeld.baselined, hHeld.seen, ?_⟩
  rcases hHeld.mark with hPending | hStopped | hLapsed
  · exact Or.inl hPending
  · exact Or.inr (Or.inl hStopped)
  · exact Or.inr (Or.inr (by omega))

theorem HeldState.noNewer
    {lastAt now : Nat}
    {s : State}
    {reading : Reading}
    (hHeld : HeldState lastAt now s)
    (hSettled : Settled lastAt reading) :
    NoNewer s reading := by
  intro e hMem
  exact Nat.le_trans (hSettled.2 e hMem) hHeld.seen

/- Past the margin the cache of a settled transcript is gone. -/
theorem cacheLapsed_of_settled
    {lastAt now : Nat}
    {reading : Reading}
    (hSettled : Settled lastAt reading)
    (hLate : lastAt + (ttlSecs - gateMarginSecs) ≤ now) :
    cacheLapsed (some reading) now = true := by
  have hLastAt := hSettled.1
  unfold Reading.lastAt at hLastAt
  unfold cacheLapsed
  rw [Option.bind_some]
  cases hLast : reading.usageTail.getLast? with
  | none => rfl
  | some last =>
      rw [hLast] at hLastAt
      simp only [Option.map_some, Option.getD_some]
        at hLastAt
      have hTtl : last.ttlSecs ≤ ttlSecs := by
        unfold UsageEntry.ttlSecs
        split <;> decide
      dsimp only
      split
      · simp only [decide_eq_true_eq]
        omega
      · rfl

end Keepwarm

------------------------------------------------------------
-- Held Ledgers
------------------------------------------------------------

namespace Keepwarm

variable {lastAt past now : Nat} {s : State}
variable {reading : Reading}

/- The step before the judgment keeps a state held. -/
theorem HeldState.policyPoll
    (hHeld : HeldState lastAt now s)
    (hSettled : Settled lastAt reading)
    (arm : Option ArmFile) :
    HeldState lastAt now
      (policyPoll s reading arm now).state := by
  have hNone := hHeld.noNewer hSettled
  refine
    ⟨policyPoll_baselined s reading arm now, ?_, ?_⟩
  · rw [policyPoll_lastSeenAt_of_noNewer hHeld.baselined
      hNone]
    exact hHeld.seen
  · rcases hHeld.mark with
      ⟨hPinged, hPending⟩ | hStopped | hLapsed
    · rcases Option.isSome_iff_exists.mp hPinged with
        ⟨pinged, hPinged⟩
      rcases (policyPoll_of_pinged hHeld.baselined hNone
        hPinged arm now).2 with
        ⟨hKept, hPolicy⟩ | ⟨_, hStopped⟩
      · rw [hKept, hPolicy]
        exact Or.inl ⟨rfl, hPending⟩
      · exact Or.inr (Or.inl hStopped)
    · exact Or.inr
        (Or.inl (policyPoll_stopped hStopped reading arm now))
    · exact Or.inr (Or.inr hLapsed)

/- A held state has no due turn with a warm cache. -/
theorem HeldState.not_atDue
    {q : Poll}
    {cfg : Config}
    {d : DuePoint}
    (hHeld : HeldState lastAt now q.state)
    (hSettled : Settled lastAt reading)
    (hDue : AtDue q reading cfg now d)
    (hWarm : cacheLapsed (some reading) now = false) :
    False := by
  rcases hHeld.mark with ⟨hPinged, _⟩ | hStopped | hLapsed
  · simp [hDue.unpinged] at hPinged
  · simp [hDue.running] at hStopped
  · simp [cacheLapsed_of_settled hSettled hLapsed] at hWarm

/- A judgment on a held state sends nothing and holds. -/
theorem HeldState.judge
    {q : Poll}
    (hHeld : HeldState lastAt now q.state)
    (hSettled : Settled lastAt reading)
    (cfg : Config)
    (site : Site) :
    HeldState lastAt now
        (Check.judge q reading cfg site now).state ∧
      (Check.judge q reading cfg site now).counted = none := by
  have hJudged := Check.judge_cases q reading cfg site now
  generalize Check.judge q reading cfg site now = c
    at hJudged ⊢
  cases hJudged with
  | armedWake hObserved hState hOut _ =>
      rw [hState]
      exact ⟨hHeld, by simp [Check.counted, hOut, hObserved]⟩
  | quiet _ _ hState _ hAction =>
      rw [hState]
      exact ⟨hHeld, Check.counted_of_none hAction⟩
  | stopped _ _ _ _ hState _ hAction =>
      rw [hState]
      exact ⟨⟨hHeld.baselined, hHeld.seen,
        Or.inr (Or.inl rfl)⟩, Check.counted_of_none hAction⟩
  | keepalive _ _ hDue hWarm _ _ _ _ _ =>
      exact (hHeld.not_atDue hSettled hDue hWarm).elim
  | wrap _ _ hDue hWarm _ _ _ _ =>
      exact (hHeld.not_atDue hSettled hDue hWarm).elim
  | afterKeepalive _ hDue hWarm _ _ _ _ _ =>
      exact (hHeld.not_atDue hSettled hDue hWarm).elim
  | compact _ _ hDue hWarm _ _ _ _ _ _ _ =>
      exact (hHeld.not_atDue hSettled hDue hWarm).elim

/- A plain step keeps a state held with its wake. -/
theorem HeldState.step
    (hHeld : HeldState lastAt now s)
    (hSettled : Settled lastAt reading)
    (arm : Option ArmFile)
    (hKeeps :
      s.pingedAt.isSome = true →
        s.policy.pending = true →
        s.policy.stopped = none →
        now < lastAt + (ttlSecs - gateMarginSecs) →
          ∃ pinged, KeepsPing s arm now pinged) :
    HeldState lastAt now (s.step reading arm now).state := by
  have hNone := hHeld.noNewer hSettled
  have hPolicy :=
    State.stepWith_policy s reading arm now true
  refine
    ⟨State.stepWith_baselined s reading arm now true,
      State.le_stepWith_lastSeenAt hSettled s arm now true,
      ?_⟩
  change
    (_ ∧ (s.stepWith reading arm now
        true).state.policy.pending = true) ∨
      (s.stepWith reading arm now
        true).state.policy.stopped.isSome = true ∨ _
  rw [hPolicy]
  by_cases hLapsed :
      lastAt + (ttlSecs - gateMarginSecs) ≤ now
  · exact Or.inr (Or.inr hLapsed)
  · rcases hHeld.mark with
      ⟨hPinged, hPending⟩ | hStopped | hLate
    · cases hStopped : s.policy.stopped with
      | some why => exact Or.inr (Or.inl rfl)
      | none =>
          rcases hKeeps hPinged hPending hStopped
            (by omega) with ⟨pinged, hKeeps⟩
          have hUnanswered :
              Unanswered s reading pinged := by
            unfold Unanswered
            rw [hHeld.baselined,
              Poll.newEntries_eq_nil hNone]
            simp
          have hKept :=
            State.stepWith_keepsPing hKeeps hUnanswered true
          left
          refine ⟨?_, hPending⟩
          change
            (s.stepWith reading arm now
              true).state.pingedAt.isSome = true
          rw [hKept]
          rfl
    · exact Or.inr (Or.inl hStopped)
    · exact absurd hLate hLapsed

end Keepwarm

------------------------------------------------------------
-- Held Turns
------------------------------------------------------------

namespace Keepwarm

variable {lastAt past now : Nat} {x : Shared}
variable {reading : Reading}

theorem resume_policy
    (ledger : Option Ledger) :
    (State.resume ledger).policy =
      (ledger.map Ledger.policy).getD {} := by
  cases ledger with
  | none => rfl
  | some l =>
      cases hCursor : l.cursor with
      | none => simp [State.resume, State.fromLedger, hCursor]
      | some c => simp [State.resume, State.fromLedger, hCursor]

/- The next reader resumes what a check left. -/
theorem resume_policyCheck
    (x : Shared)
    (reading : Reading)
    (cfg : Config)
    (gate : Gate)
    (site : Site)
    (now : Nat)
    (hBaselined :
      (policyStep (State.resume x.ledger) reading x.arm cfg
        gate site now).state.baselined = true) :
    ∃ oldHost,
      State.resume
          (policyCheck x reading cfg gate site
            now).1.ledger =
        { (policyStep (State.resume x.ledger) reading x.arm
            cfg gate site now).state with
          policy :=
            { (policyStep (State.resume x.ledger) reading
                x.arm cfg gate site now).state.policy with
              oldHost := oldHost } } := by
  refine ⟨decide (cfg.sessionSkills = .notChecked), ?_⟩
  unfold policyCheck settleLedger
  dsimp only
  rw [if_pos rfl]
  apply State.resume_ledger
  exact hBaselined

/- A check of a held ledger sends nothing and holds it. -/
theorem held_policyCheck
    {cfg : Config}
    {gate : Gate}
    (site : Site)
    (hHeld : Held lastAt now x)
    (hSettled : Settled lastAt reading)
    (hCareful :
      Careful lastAt x (.check reading cfg gate site now)) :
    Held lastAt now
        (policyCheck x reading cfg gate site now).1 ∧
      (policyCheck x reading cfg gate site
        now).2.counted = none := by
  have hRecorded :
      HeldState lastAt now
        (recordCheck (State.resume x.ledger) cfg gate) :=
    ⟨hHeld.baselined, hHeld.seen, hHeld.mark⟩
  have hChecked :
      HeldState lastAt now
          (policyStep (State.resume x.ledger) reading x.arm
            cfg gate site now).state ∧
        (policyStep (State.resume x.ledger) reading x.arm
          cfg gate site now).counted = none := by
    cases hOff : cfg.whyOff gate with
    | none =>
        rw [policyStep_of_on hOff]
        exact (hRecorded.policyPoll hSettled x.arm).judge
          hSettled cfg site
    | some why =>
        rw [policyStep_of_off hOff]
        have hPolicy :=
          judgeOff_policy
            (recordCheck (State.resume x.ledger) cfg gate)
            reading x.arm cfg why now
        refine ⟨?_, by simp [Check.counted, hPolicy.2]⟩
        cases hKeepwarm : cfg.keepwarmOn with
        | false =>
            simp only [Check.judgeOff, hKeepwarm,
              Bool.not_false, if_true]
            exact hRecorded
        | true =>
            simp only [Check.judgeOff, hKeepwarm,
              Bool.not_true, Bool.false_eq_true, if_false]
            apply hRecorded.step hSettled
            intro hPinged hPending hRunning hWarm
            rcases hCareful
              ⟨hPinged, hPending, hRunning, hWarm⟩ with
              hOn | hNone | ⟨pinged, hKeeps⟩
            · simp [hOff] at hOn
            · simp [hKeepwarm] at hNone
            · exact ⟨pinged, hKeeps.pending, hKeeps.window,
                hKeeps.inTime⟩
  refine ⟨?_, hChecked.2⟩
  rcases resume_policyCheck x reading cfg gate site now
    hChecked.1.baselined with ⟨_, hResumed⟩
  unfold Held
  rw [hResumed]
  exact ⟨hChecked.1.baselined, hChecked.1.seen,
    hChecked.1.mark⟩

/-
  A sensor state `s` that carries a held ledger's policy is
  held once its step rewrites the ledger.
-/
theorem HeldState.poll
    {held s : State}
    {arm : Option ArmFile}
    (hHeld : HeldState lastAt now held)
    (hSettled : Settled lastAt reading)
    (hRead : s.policy = held.policy)
    (hCareful :
      held.pingedAt.isSome = true →
        held.policy.pending = true →
        held.policy.stopped = none →
        now < lastAt + (ttlSecs - gateMarginSecs) →
          (∃ pinged,
            KeepsPing s arm now pinged ∧
              Unanswered s reading pinged) ∨
          Undisturbed s reading arm now)
    (hChanged :
      (s.stepWith reading arm now true).out.changed =
        true) :
    HeldState lastAt now
      (s.stepWith reading arm now true).state := by
  have hPolicy :=
    State.stepWith_policy s reading arm now true
  have hSeen :=
    State.le_stepWith_lastSeenAt hSettled s arm now true
  refine
    ⟨State.stepWith_baselined s reading arm now true, hSeen,
      ?_⟩
  rw [hPolicy, hRead]
  by_cases hLapsed :
      lastAt + (ttlSecs - gateMarginSecs) ≤ now
  · exact Or.inr (Or.inr hLapsed)
  · rcases hHeld.mark with
      ⟨hPinged, hPending⟩ | hStopped | hLate
    · cases hStopped : held.policy.stopped with
      | some why => exact Or.inr (Or.inl rfl)
      | none =>
          left
          refine ⟨?_, hPending⟩
          rcases hCareful hPinged hPending hStopped
            (by omega) with
            ⟨pinged, hKeeps, hUnanswered⟩ | hLeft
          · rw [State.stepWith_keepsPing hKeeps hUnanswered
              true]
            rfl
          · rcases State.stepWith_of_undisturbed hLeft
              true with hSame | hWoke | hLate
            · simp [hSame] at hChanged
            · rw [hWoke]
              rfl
            · exfalso
              have hMargin :
                  ttlSecs - gateMarginSecs ≤ ttlSecs := by
                decide
              have hTtl : 0 < ttlSecs := by decide
              omega
    · exact Or.inr (Or.inl hStopped)
    · exact absurd hLate hLapsed

/- A poll leaves a held ledger, or rewrites it held. -/
theorem held_pollWith
    (hHeld : Held lastAt now x)
    (hSettled : Settled lastAt reading)
    (hCareful : Careful lastAt x (.poll reading now)) :
    Held lastAt now (pollWith x reading now) := by
  unfold Held pollWith settleLedger
  dsimp only
  split
  · rename_i hChanged
    have hPolled :=
      HeldState.poll
        (s := { x.sensor with
          policy := (x.ledger.map Ledger.policy).getD {} })
        hHeld hSettled (resume_policy x.ledger).symm
        (by
          intro hPinged hPending hRunning hWarm
          rcases hCareful
            ⟨hPinged, hPending, hRunning, hWarm⟩ with
            ⟨pinged, hKeeps, hUnanswered⟩ | hLeft
          · exact Or.inl
              ⟨pinged,
                ⟨hKeeps.pending, hKeeps.window,
                  hKeeps.inTime⟩,
                hUnanswered⟩
          · exact Or.inr
              ⟨hLeft.unpinged, hLeft.same, hLeft.standing,
                hLeft.warm⟩)
        hChanged
    have hResumed :=
      State.resume_ledger hPolled.baselined now
    rw [← hResumed] at hPolled
    exact hPolled
  · exact hHeld

/- Every careful turn keeps a held ledger held. -/
theorem held_step
    {e : SharedEvent}
    (hHeld : Held lastAt past x)
    (hClock : past ≤ e.now)
    (hSettled : e.Settled lastAt)
    (hCareful : Careful lastAt x e) :
    Held lastAt e.now (sharedMachine.step x e).1 ∧
      decidesKeepalive (sharedMachine.turn x e) = false := by
  have hNow : Held lastAt e.now x := hHeld.mono hClock
  cases e with
  | check reading cfg gate site now =>
      change Held lastAt now x at hNow
      have hCheck :=
        held_policyCheck site hNow hSettled hCareful
      refine ⟨hCheck.1, ?_⟩
      simp [decidesKeepalive, StepMachine.turn,
        sharedMachine, hCheck.2]
  | poll reading now =>
      exact ⟨held_pollWith hNow hSettled hCareful, rfl⟩
  | sensorStart now => exact ⟨hNow, rfl⟩
  | operatorArm arm now => exact ⟨hNow, rfl⟩

/- A counted keepalive leaves its state held. -/
theorem heldState_of_keepalive
    {s : State}
    {arm : Option ArmFile}
    {cfg : Config}
    {gate : Gate}
    {site : Site}
    (hSettled : Settled lastAt reading)
    (hCounted :
      (policyStep s reading arm cfg gate site now).counted =
        some .keepalive) :
    HeldState lastAt now
      (policyStep s reading arm cfg gate site now).state := by
  cases hOff : cfg.whyOff gate with
  | some why =>
      rw [policyStep_of_off hOff] at hCounted
      have hPolicy :=
        judgeOff_policy (recordCheck s cfg gate) reading arm
          cfg why now
      simp [Check.counted, hPolicy.2] at hCounted
  | none =>
      rw [policyStep_of_on hOff] at hCounted ⊢
      have hBaselined :=
        policyPoll_baselined (recordCheck s cfg gate) reading
          arm now
      have hSeen :
          lastAt ≤
            (policyPoll (recordCheck s cfg gate) reading arm
              now).state.lastSeenAt := by
        rcases policyPoll_state (recordCheck s cfg gate)
          reading arm now with ⟨_, hState⟩
        rw [hState]
        exact State.le_stepWith_lastSeenAt hSettled _ _ now
          false
      have hJudged :=
        Check.judge_cases
          (policyPoll (recordCheck s cfg gate) reading arm
            now) reading cfg site now
      generalize
        policyPoll (recordCheck s cfg gate) reading arm now =
          q
        at hBaselined hSeen hJudged hCounted ⊢
      generalize Check.judge q reading cfg site now = c
        at hJudged hCounted ⊢
      have hAction :
          c.decision.action = .keepalive ∧
            c.out.observations = [] := by
        unfold Check.counted at hCounted
        split at hCounted
        · rename_i hAll
          exact ⟨Option.some.inj hCounted, hAll.2.1⟩
        · simp at hCounted
      cases hJudged with
      | armedWake hObserved _ hOut _ =>
          rw [hOut] at hAction
          exact absurd hAction.2 hObserved
      | quiet _ _ _ _ hOther => simp [hOther] at hAction
      | stopped _ _ _ _ _ _ hOther =>
          simp [hOther] at hAction
      | wrap _ _ _ _ _ _ _ hOther =>
          simp [hOther] at hAction
      | compact _ _ _ _ _ _ _ _ _ hOther _ =>
          simp [hOther] at hAction
      | keepalive _ _ _ _ _ _ hState _ _ =>
          rw [hState]
          exact ⟨hBaselined, hSeen, Or.inl ⟨rfl, rfl⟩⟩
      | afterKeepalive _ _ _ _ _ hState _ _ =>
          rw [hState]
          exact ⟨hBaselined, hSeen, Or.inl ⟨rfl, rfl⟩⟩

/- A counted keepalive leaves the ledger held. -/
theorem held_of_decidesKeepalive
    {e : SharedEvent}
    (hSettled : e.Settled lastAt)
    (hDecides :
      decidesKeepalive (sharedMachine.turn x e) = true) :
    Held lastAt e.now (sharedMachine.step x e).1 := by
  cases e with
  | poll reading now =>
      simp [decidesKeepalive, StepMachine.turn,
        sharedMachine] at hDecides
  | sensorStart now =>
      simp [decidesKeepalive, StepMachine.turn,
        sharedMachine] at hDecides
  | operatorArm arm now =>
      simp [decidesKeepalive, StepMachine.turn,
        sharedMachine] at hDecides
  | check reading cfg gate site now =>
      have hCounted :
          (policyStep (State.resume x.ledger) reading x.arm
            cfg gate site now).counted =
              some .keepalive := by
        exact of_decide_eq_true hDecides
      have hState :=
        heldState_of_keepalive hSettled hCounted
      rcases resume_policyCheck x reading cfg gate site now
        hState.baselined with ⟨_, hResumed⟩
      change
        HeldState lastAt now
          (State.resume
            (policyCheck x reading cfg gate site
              now).1.ledger)
      rw [hResumed]
      exact ⟨hState.baselined, hState.seen, hState.mark⟩

end Keepwarm

------------------------------------------------------------
-- Whole Runs
------------------------------------------------------------

namespace Keepwarm

/-
  In every careful run over a transcript that gains no new
  request the checks decide one counted keepalive at most,
  and after it the ledger holds it pending until the policy
  stops or the cache lapses.
-/
theorem keepalive_decided_once
    (lastAt : Nat)
    (x : Shared)
    (events : List SharedEvent)
    (hClock :
      (events.map SharedEvent.now).Pairwise (· ≤ ·))
    (hSettled : ∀ e ∈ events, e.Settled lastAt)
    (hCareful :
      ∀ t ∈ sharedMachine.trace x events,
        Careful lastAt t.before t.input) :
    (sharedMachine.trace x events).countP
        decidesKeepalive ≤ 1 ∧
      ∀ earlier a later,
        sharedMachine.trace x events =
          earlier ++ a :: later →
        decidesKeepalive a = true →
          ∀ u ∈ later, Held lastAt u.input.now u.before := by
  have hOk :
      ∀ t ∈ sharedMachine.trace x events,
        t.input.Settled lastAt ∧
          Careful lastAt t.before t.input := by
    intro t hMem
    refine ⟨?_, hCareful t hMem⟩
    apply hSettled
    exact StepMachine.input_mem_of_mem_trace hMem
  constructor
  · apply StepMachine.countP_le_one_of_spent SharedEvent.now
      (Held lastAt)
      (fun x e => e.Settled lastAt ∧ Careful lastAt x e)
    · intro x e hOk hDecides
      exact held_of_decidesKeepalive hOk.1 hDecides
    · intro past x e hHeld hNow hOk
      exact (held_step hHeld hNow hOk.1 hOk.2).1
    · intro past x e hHeld hNow hOk
      exact (held_step hHeld hNow hOk.1 hOk.2).2
    · exact hOk
    · exact hClock
  · intro earlier a later hTrace hDecides u hMem
    have hTurn :=
      StepMachine.eq_turn_of_mem_trace
        (t := a) (by rw [hTrace]; simp)
    have hStart : Held lastAt a.input.now a.after := by
      have hOkA := hOk a (by rw [hTrace]; simp)
      rw [hTurn] at hDecides ⊢
      exact held_of_decidesKeepalive hOkA.1 hDecides
    rcases StepMachine.trace_eq_append_cons hTrace with
      ⟨first, second, rfl, _, _, rfl⟩
    have hLaterClock :
        (a.input.now ::
          second.map SharedEvent.now).Pairwise (· ≤ ·) := by
      rw [List.map_append, List.pairwise_append] at hClock
      exact hClock.2.1
    rcases StepMachine.timed_invariant_of_mem_trace
      SharedEvent.now (Held lastAt)
      (fun x e => e.Settled lastAt ∧ Careful lastAt x e)
      (fun past x e hHeld hNow hOk =>
        (held_step hHeld hNow hOk.1 hOk.2).1)
      (fun t hLater => hOk t (by rw [hTrace]; simp [hLater]))
      hLaterClock hStart hMem with ⟨past, hPast, hHeld⟩
    exact HeldState.mono hHeld hPast

/- An idle session that neither judge has seen yet. -/
def freshSession : Shared :=
  { arm := none
    ledger := none
    sensor := {} }

/- A check of the policy on the request at `10000`. -/
def checkShared
    (now : Nat) : SharedEvent :=
  .check (warmReading 10000) defaultConfig .off plainSite now

/- A sensor that starts on the pending wake, and polls. -/
def carefulRun : List SharedEvent :=
  [ checkShared 13000,
    .sensorStart 13010,
    .poll (warmReading 10000) 13020,
    checkShared 13060 ]

/- One keepalive, kept by both judges. -/
theorem carefulRun_decides_once :
    (sharedMachine.trace freshSession carefulRun).countP
      decidesKeepalive ≤ 1 := by
  refine
    (keepalive_decided_once 10000 freshSession carefulRun
      (by decide) ?_ ?_).1
  · intro e hMem
    simp only [carefulRun, List.mem_cons, List.not_mem_nil,
      or_false] at hMem
    rcases hMem with rfl | rfl | rfl | rfl
    · exact ⟨by decide, by decide⟩
    · trivial
    · exact ⟨by decide, by decide⟩
    · exact ⟨by decide, by decide⟩
  · intro t hMem
    simp only [carefulRun, StepMachine.trace_cons,
      StepMachine.trace_nil, List.mem_cons,
      List.not_mem_nil, or_false] at hMem
    rcases hMem with rfl | rfl | rfl | rfl
    · exact fun _ => Or.inl rfl
    · trivial
    · refine fun _ => Or.inl ⟨13000, ⟨?_, ?_, ?_⟩, ?_⟩
      · decide
      · exact Or.inr ⟨by decide, by decide⟩
      · decide
      · unfold Unanswered
        decide
    · exact fun _ => Or.inl rfl

/-
  A check's keepalive, a window the operator arms for a
  minute, a sensor started after its end and polled once,
  and the next check.
-/
def wakeLostRun : List SharedEvent :=
  [ checkShared 13000,
    .operatorArm ⟨13060, 13000, 60, false⟩ 13000,
    .sensorStart 13100,
    .poll (warmReading 10000) 13100,
    checkShared 13130 ]

/- The sensor writes the ended window over the wake. -/
theorem wakeLostRun_decides_twice :
    (wakeLostRun.map SharedEvent.now).Pairwise (· ≤ ·) ∧
      (∀ e ∈ wakeLostRun, e.Settled 10000) ∧
      (sharedMachine.trace freshSession wakeLostRun).countP
        decidesKeepalive = 2 := by
  refine ⟨by decide, ?_, by decide⟩
  intro e hMem
  simp only [wakeLostRun, List.mem_cons, List.not_mem_nil,
    or_false] at hMem
  rcases hMem with rfl | rfl | rfl | rfl | rfl
  · exact ⟨by decide, by decide⟩
  · trivial
  · trivial
  · exact ⟨by decide, by decide⟩
  · exact ⟨by decide, by decide⟩

end Keepwarm
