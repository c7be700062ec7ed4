import AgentWays.Lib.StepMachine
import AgentWays.Keepwarm.PolicySpec
import Mathlib.Logic.Function.Basic

/-
  When the policy asks to be asked again.

  Processes hold states in memory and share one ledger. A
  pending wake of a state that has stepped is at most its
  verdict's time old, so a judgment asks again later than
  now. A state straight from `State.fromLedger` may hold an
  older wake: its first step only baselines, and that step
  is the sensor's.

  Key definitions include:
    * `Keepwarm.LoadedConfig`
    * `Keepwarm.Onward`
    * `Keepwarm.deskMachine`
    * `Keepwarm.JudgesRead`

  Main declarations:
    * `Keepwarm.Check.judge_onward`
    * `Keepwarm.policyStep_onward`
    * `Keepwarm.desks_onward`
-/

------------------------------------------------------------
-- Decisions That Go Onward
------------------------------------------------------------

namespace Keepwarm

/- `MARGIN_RANGE`, in minutes. -/
def marginRange : Nat × Nat := (3, 30)

/- A config as it is loaded, its margin in the range. -/
structure LoadedConfig where
  config : Config
  least : marginRange.1 * 60 ≤ config.marginSecs
  most : config.marginSecs ≤ marginRange.2 * 60

theorem LoadedConfig.margin_lt
    (cfg : LoadedConfig) :
    cfg.config.marginSecs < ttlSecs := by
  have hMost := cfg.most
  simp only [marginRange] at hMost
  simp only [ttlSecs]
  omega

/-
  A decision asks again later than now or not at all, and a
  policy's turn after which nothing is asked is the last.
-/
structure Onward
    (cfg : Config)
    (now : Nat)
    (d : Decision) : Prop where
  ahead : ∀ next, d.nextAt = some next → now < next
  last :
    d.policy = true → d.action ≠ .none →
      d.nextAt = none →
        (d.action = .wrap ∧ cfg.afterMax = 0) ∨
          d.action = .compact

@[simp] theorem Decision.estimate_nextAt
    (d : Decision)
    (cfg : Config)
    (p : Policy)
    (due ttl : Nat) :
    (d.estimate cfg p due ttl).nextAt = d.nextAt := by
  unfold Decision.estimate
  dsimp only
  split <;> rfl

section Decisions

variable {cfg : Config} {now : Nat} {d : Decision}

/- A word that asks nothing more, with no turn. -/
theorem onward_of_done
    (hAction : d.action = .none)
    (hNext : d.nextAt = none) :
    Onward cfg now d := by
  constructor
  · intro next hSome
    rw [hNext] at hSome
    cases hSome
  · intro _ hSome
    exact absurd hAction hSome

/- A word that asks again at a later time. -/
theorem onward_of_next
    {n : Nat}
    (hNext : d.nextAt = some n)
    (hLater : now < n) :
    Onward cfg now d := by
  constructor
  · intro other hSome
    rw [hNext] at hSome
    cases hSome
    exact hLater
  · intro _ _ hNone
    rw [hNext] at hNone
    cases hNone

end Decisions

end Keepwarm

------------------------------------------------------------
-- Judgments
------------------------------------------------------------

namespace Keepwarm

namespace Check

variable {cfg : Config} {now : Nat}

theorem keepaliveDecision_onward
    (s : State)
    (d : DuePoint)
    (standing : Standing)
    (reason : String) :
    Onward cfg now
      (keepaliveDecision cfg s d now standing reason) := by
  apply onward_of_next (n := now + verdictSecs + 1)
  · simp [keepaliveDecision]
  · omega

theorem afterWrapDue_onward
    (q : Poll)
    (d : DuePoint) :
    Onward cfg now
      (afterWrapDue q cfg d now).decision := by
  unfold afterWrapDue
  dsimp only
  split
  · exact keepaliveDecision_onward _ _ _ _
  · split
    · constructor
      · intro next hNext
        cases hNext
      · intro _ _ _
        exact Or.inr rfl
    · exact onward_of_done rfl rfl

/- The wrap asks again where keepalives follow it. -/
theorem dueTurn_onward
    (q : Poll)
    (site : Site)
    {d : DuePoint}
    (hMargin : cfg.marginSecs < d.ttl) :
    Onward cfg now
      (dueTurn q cfg site d now).decision := by
  unfold dueTurn
  dsimp only
  generalize
    (if q.state.policy.since.isNone then
      { q.state with policy.stretchFrom := some d.lastAt }
    else q.state) = s
  split
  · exact keepaliveDecision_onward _ _ _ _
  · split
    · exact onward_of_done rfl rfl
    · by_cases hAfter : 0 < cfg.afterMax
      · apply
          onward_of_next
            (n := now + (d.ttl - cfg.marginSecs))
        · simp [hAfter]
        · omega
      · constructor
        · intro next hNext
          simp [hAfter, Decision.new] at hNext
        · intro _ _ _
          left
          exact ⟨by simp [hAfter], by omega⟩

theorem ttl_of_duePoint
    {s : State}
    {reading : Reading}
    {d : DuePoint}
    (hPoint : duePoint s reading cfg = .ok d) :
    ttlSecs ≤ d.ttl := by
  unfold duePoint at hPoint
  split at hPoint
  · cases hPoint
  · split at hPoint
    · cases hPoint
    · split at hPoint
      · cases hPoint
      · split at hPoint
        · cases hPoint
        · cases hPoint
          dsimp only
          omega

theorem atDue_onward
    (q : Poll)
    (reading : Reading)
    (site : Site)
    {d : DuePoint}
    (hMargin : cfg.marginSecs < d.ttl) :
    Onward cfg now
      (atDue q reading cfg site d now).decision := by
  unfold atDue
  dsimp only
  split
  · exact onward_of_done rfl rfl
  · split
    · exact afterWrapDue_onward _ _
    · exact dueTurn_onward _ _ hMargin

/- A pending wake's turn may still come. -/
def Young
    (now : Nat)
    (s : State) : Prop :=
  ∀ t, s.pingedAt = some t → now < t + verdictSecs + 1

theorem judgeIdle_onward
    {q : Poll}
    (reading : Reading)
    (site : Site)
    (hMargin : cfg.marginSecs < ttlSecs)
    (hYoung : Young now q.state) :
    Onward cfg now
      (judgeIdle q reading cfg site now).decision := by
  unfold judgeIdle
  dsimp only
  split
  · rename_i t hPinged
    apply onward_of_next (n := t + verdictSecs + 1)
    · dsimp only
      split <;> simp
    · exact hYoung t hPinged
  · split
    · exact onward_of_done rfl rfl
    · rename_i d hPoint
      have hTtl := ttl_of_duePoint hPoint
      split
      · rename_i hDue
        apply onward_of_next (n := d.due)
        · simp
        · exact hDue
      · exact atDue_onward _ _ _ (by omega)

theorem judge_onward
    {q : Poll}
    (reading : Reading)
    (site : Site)
    (hMargin : cfg.marginSecs < ttlSecs)
    (hYoung : Young now q.state) :
    Onward cfg now
      (judge q reading cfg site now).decision := by
  unfold judge
  dsimp only
  split
  · apply onward_of_next (n := now + verdictSecs + 1) rfl
    omega
  · split
    · rename_i hOpen
      cases hPinged : q.state.pingedAt with
      | some t =>
          apply onward_of_next (n := t + verdictSecs + 1)
          · simp
          · exact hYoung t hPinged
      | none =>
          apply
            onward_of_next
              (n :=
                Nat.min
                  (Nat.max (q.state.lastSeenAt + pingAfterSecs)
                    (now + 1))
                  q.state.deadline)
          · simp
          · have hLater :=
              Nat.le_max_right
                (q.state.lastSeenAt + pingAfterSecs) (now + 1)
            exact
              Nat.lt_min.mpr
                ⟨Nat.lt_of_succ_le hLater, hOpen⟩
    · split
      · exact onward_of_done rfl rfl
      · split
        · exact onward_of_done rfl rfl
        · exact judgeIdle_onward reading site hMargin hYoung

theorem judgeOff_onward
    (s : State)
    (reading : Reading)
    (arm : Option ArmFile)
    (why : String) :
    Onward cfg now
      (judgeOff s reading arm cfg why now).decision := by
  unfold judgeOff
  dsimp only
  split
  · exact onward_of_done rfl rfl
  · apply onward_of_next (n := now + plainEverySecs)
    · dsimp only
      split <;> rfl
    · simp [plainEverySecs]

end Check

end Keepwarm

------------------------------------------------------------
-- Pending Wakes
------------------------------------------------------------

namespace Keepwarm

/- Only a state that has stepped holds a pending wake. -/
def Stepped
    (s : State) : Prop :=
  s.pingedAt.isSome = true → s.baselined = true

theorem stepped_of_baselined
    {s : State}
    (hBaselined : s.baselined = true) :
    Stepped s :=
  fun _ => hBaselined

theorem Poll.Finished.young
    {p q : Poll}
    {now : Nat}
    (hEnd : Poll.Finished p now q) :
    Check.Young now q.state := by
  intro t hPinged
  cases hEnd with
  | quiet hNot =>
      by_contra hOld
      apply hNot
      apply Poll.Disarms.silence t hPinged
      simp only [verdictSecs] at hOld
      omega
  | disarmed => cases hPinged
  | woke =>
      cases hPinged
      omega

/- A step judges the wake that its state holds. -/
theorem State.stepWith_young
    {s : State}
    (hStepped : Stepped s)
    (reading : Reading)
    (arm : Option ArmFile)
    (now : Nat)
    (autoArm : Bool) :
    Check.Young now
      (s.stepWith reading arm now autoArm).state := by
  cases hBaselined : s.baselined with
  | true =>
      rw [stepWith_of_baselined hBaselined]
      exact
        Poll.Finished.young
          (Poll.finish_cases
            ((Poll.readArm s arm now).scoreEntries reading
              now autoArm) now)
  | false =>
      have hNone : s.pingedAt = none := by
        cases hPinged : s.pingedAt with
        | none => rfl
        | some t =>
            have hTrue := hStepped (by simp [hPinged])
            rw [hBaselined] at hTrue
            cases hTrue
      rw [stepWith_of_not_baselined hBaselined]
      intro t hPinged
      rcases Poll.baseline_state (Poll.readArm s arm now)
        reading now with
        ⟨pinged, hState, hKept⟩
      rw [hState] at hPinged
      dsimp only at hPinged
      rw [Poll.readArm_state, hNone] at hKept
      simp only [ite_self, or_self] at hKept
      rw [hKept] at hPinged
      cases hPinged

theorem policyPoll_young
    {s : State}
    (hStepped : Stepped s)
    (reading : Reading)
    (arm : Option ArmFile)
    (now : Nat) :
    Check.Young now
      (policyPoll s reading arm now).state := by
  rcases operatorArm_state s arm with ⟨deadline, hRead⟩
  have hReadStepped : Stepped (operatorArm s arm).1 := by
    rw [hRead]
    exact hStepped
  have hYoung :=
    State.stepWith_young hReadStepped reading
      (operatorArm s arm).2 now false
  rcases policyPoll_state s reading arm now with ⟨_, hState⟩
  rw [hState]
  exact hYoung

/- Every judgment of a stepped state goes onward. -/
theorem policyStep_onward
    {s : State}
    (hStepped : Stepped s)
    (reading : Reading)
    (arm : Option ArmFile)
    (cfg : LoadedConfig)
    (gate : Gate)
    (site : Site)
    (now : Nat) :
    Onward cfg.config now
      (policyStep s reading arm cfg.config gate site
        now).decision := by
  unfold policyStep
  dsimp only
  split
  · exact Check.judgeOff_onward _ _ _ _
  · have hRecorded : Stepped (recordCheck s cfg.config gate) :=
      hStepped
    exact
      Check.judge_onward reading site cfg.margin_lt
        (policyPoll_young hRecorded reading arm now)

theorem judge_baselined
    {q : Poll}
    (hBaselined : q.state.baselined = true)
    (reading : Reading)
    (cfg : Config)
    (site : Site)
    (now : Nat) :
    (Check.judge q reading cfg site now).state.baselined =
      true := by
  cases Check.judge_cases q reading cfg site now <;>
    simp_all

/- A judged state has stepped, or held no wake to begin. -/
theorem stepped_policyStep
    {s : State}
    (hStepped : Stepped s)
    (reading : Reading)
    (arm : Option ArmFile)
    (cfg : Config)
    (gate : Gate)
    (site : Site)
    (now : Nat) :
    Stepped
      (policyStep s reading arm cfg gate site now).state := by
  unfold policyStep
  dsimp only
  split
  · unfold Check.judgeOff
    dsimp only
    split
    · exact hStepped
    · exact
        stepped_of_baselined
          (State.stepWith_baselined _ _ _ _ _)
  · exact
      stepped_of_baselined
        (judge_baselined (policyPoll_baselined _ _ _ _)
          reading cfg site now)

end Keepwarm

------------------------------------------------------------
-- Processes Over One Ledger
------------------------------------------------------------

namespace Keepwarm

/-
  A process's state in memory and what its last step leaves
  to settle; `restarted` until a state of
  `State.fromLedger` steps.
-/
structure Desk where
  state : State := {}
  out : Option Outcome := none
  restarted : Bool := false

/- The session's ledger and the processes that share it. -/
structure Desks where
  ledger : Option Ledger := none
  at' : Nat → Desk := fun _ => {}

namespace Desks

def put
    (x : Desks)
    (k : Nat)
    (d : Desk) : Desks :=
  { x with at' := Function.update x.at' k d }

end Desks

/-
  One call of one process. A settling may count its step as
  changed, as the one-shot checks do, and an update of the
  policy's marks is any word: on, off, a reset or a report.
-/
inductive DeskEvent where
| policyStep
    (k : Nat)
    (reading : Reading)
    (arm : Option ArmFile)
    (cfg : LoadedConfig)
    (gate : Gate)
    (site : Site)
    (now : Nat)
| step
    (k : Nat)
    (reading : Reading)
    (arm : Option ArmFile)
    (now : Nat)
| settle
    (k : Nat)
    (forced : Bool)
    (now : Nat)
| resume (k now : Nat)
| fromLedger (k now : Nat)
| readPolicy (k now : Nat)
| updatePolicy
    (word : Policy → Policy)
    (now : Nat)

def DeskEvent.now : DeskEvent → Nat
| policyStep _ _ _ _ _ _ now => now
| step _ _ _ now => now
| settle _ _ now => now
| resume _ now => now
| fromLedger _ now => now
| readPolicy _ now => now
| updatePolicy _ now => now

/- A policy's decision, with its config and its time. -/
structure Ruling where
  cfg : Config
  now : Nat
  decision : Decision

/- The ledger with the policy's marks updated. -/
def updatePolicy
    (ledger : Option Ledger)
    (word : Policy → Policy)
    (now : Nat) : Ledger :=
  let l := ledger.getD {}
  { l with
    policy := word l.policy
    updatedAt := now }

def deskMachine :
    StepMachine Desks DeskEvent (Option Ruling) where
  step x e :=
    match e with
    | .policyStep k reading arm cfg gate site now =>
        let c :=
          Keepwarm.policyStep (x.at' k).state reading arm
            cfg.config gate site now
        (x.put k { state := c.state, out := some c.out },
          some
            { cfg := cfg.config
              now := now
              decision := c.decision })
    | .step k reading arm now =>
        let q := (x.at' k).state.step reading arm now
        (x.put k { state := q.state, out := some q.out },
          none)
    | .settle k forced now =>
        match (x.at' k).out with
        | none => (x, none)
        | some out =>
            ({ x with
               ledger :=
                 settleLedger x.ledger (x.at' k).state
                   { out with
                     changed := out.changed || forced }
                   now },
              none)
    | .resume k _ =>
        (x.put k { state := State.resume x.ledger }, none)
    | .fromLedger k _ =>
        (x.put k
          { state := State.fromLedger x.ledger
            restarted := true },
          none)
    | .readPolicy k _ =>
        (x.put k
          { x.at' k with
            state :=
              { (x.at' k).state with
                policy :=
                  (x.ledger.map Ledger.policy).getD {} } },
          none)
    | .updatePolicy word now =>
        ({ x with
           ledger :=
             some
               (Keepwarm.updatePolicy x.ledger word now) },
          none)

abbrev DeskTurn :=
  StepMachine.Turn Desks DeskEvent (Option Ruling)

/- A policy's decision goes onward. -/
def RulesOnward
    (t : DeskTurn) : Prop :=
  ∀ r, t.output = some r → Onward r.cfg r.now r.decision

/-
  The policy judges a state that `State.resume` read or that
  has stepped; a state straight from `State.fromLedger` is
  the sensor's, which never judges the policy.
-/
def JudgesRead
    (x : Desks) : DeskEvent → Prop
| .policyStep k _ _ _ _ _ _ => (x.at' k).restarted = false
| _ => True

end Keepwarm

------------------------------------------------------------
-- Runs Of The Processes
------------------------------------------------------------

namespace Keepwarm

/- A ledger with a pending wake has the cursor it stepped to. -/
def LedgerStepped
    (ledger : Option Ledger) : Prop :=
  ∀ l, ledger = some l →
    l.pingedAt.isSome = true → l.cursor.isSome = true

/- What every process and the ledger keep. -/
structure DesksStepped
    (x : Desks) : Prop where
  ledger : LedgerStepped x.ledger
  read :
    ∀ k, (x.at' k).restarted = false →
      Stepped (x.at' k).state
  settled :
    ∀ k, (x.at' k).out.isSome = true →
      Stepped (x.at' k).state

theorem stepped_resume
    {ledger : Option Ledger}
    (hLedger : LedgerStepped ledger) :
    Stepped (State.resume ledger) := by
  intro hPinged
  cases ledger with
  | none => cases hPinged
  | some l =>
      cases hCursor : l.cursor with
      | some c => simp [State.resume, hCursor]
      | none =>
          have hSome : l.pingedAt.isSome = true := by
            simpa [State.resume, hCursor, State.fromLedger]
              using hPinged
          have hCursorSome := hLedger l rfl hSome
          rw [hCursor] at hCursorSome
          cases hCursorSome

theorem ledgerStepped_ledger
    {s : State}
    (hStepped : Stepped s)
    (now : Nat) :
    LedgerStepped (some (s.ledger now)) := by
  intro l hSome hPinged
  cases hSome
  have hBaselined := hStepped hPinged
  simp [State.ledger, hBaselined]

theorem ledgerStepped_updatePolicy
    {ledger : Option Ledger}
    (hLedger : LedgerStepped ledger)
    (word : Policy → Policy)
    (now : Nat) :
    LedgerStepped
      (some (updatePolicy ledger word now)) := by
  intro l hSome hPinged
  cases hSome
  cases ledger with
  | none => cases hPinged
  | some l => exact hLedger l rfl hPinged

/- A process put back stepped leaves all of them so. -/
theorem DesksStepped.put
    {x : Desks}
    (hStepped : DesksStepped x)
    (k : Nat)
    {d : Desk}
    (hRead : d.restarted = false → Stepped d.state)
    (hOut : d.out.isSome = true → Stepped d.state) :
    DesksStepped (x.put k d) := by
  refine ⟨hStepped.ledger, ?_, ?_⟩
  · intro j
    by_cases hSame : j = k
    · subst hSame
      simpa [Desks.put] using hRead
    · simpa [Desks.put, hSame] using hStepped.read j
  · intro j
    by_cases hSame : j = k
    · subst hSame
      simpa [Desks.put] using hOut
    · simpa [Desks.put, hSame] using hStepped.settled j

theorem desksStepped_step
    {x : Desks}
    {e : DeskEvent}
    (hStepped : DesksStepped x)
    (hRead : JudgesRead x e) :
    DesksStepped (deskMachine.step x e).1 := by
  cases e with
  | policyStep k reading arm cfg gate site now =>
      have hAfter :=
        stepped_policyStep (hStepped.read k hRead) reading
          arm cfg.config gate site now
      exact
        hStepped.put k (fun _ => hAfter) (fun _ => hAfter)
  | step k reading arm now =>
      have hAfter :
          Stepped
            ((x.at' k).state.step reading arm now).state :=
        stepped_of_baselined
          (State.stepWith_baselined _ _ _ _ _)
      exact
        hStepped.put k (fun _ => hAfter) (fun _ => hAfter)
  | settle k forced now =>
      simp only [deskMachine]
      cases hOut : (x.at' k).out with
      | none => exact hStepped
      | some out =>
          have hState :=
            hStepped.settled k (by simp [hOut])
          refine ⟨?_, hStepped.read, hStepped.settled⟩
          dsimp only
          unfold settleLedger
          split
          · exact ledgerStepped_ledger hState now
          · exact hStepped.ledger
  | resume k now =>
      have hAfter := stepped_resume hStepped.ledger
      exact
        hStepped.put k (fun _ => hAfter) (fun _ => hAfter)
  | fromLedger k now =>
      apply hStepped.put k
      · intro hNot
        cases hNot
      · intro hNot
        cases hNot
  | readPolicy k now =>
      exact
        hStepped.put k (hStepped.read k)
          (hStepped.settled k)
  | updatePolicy word now =>
      exact
        ⟨ledgerStepped_updatePolicy hStepped.ledger word now,
          hStepped.read, hStepped.settled⟩

/- From an absent ledger every decision goes onward. -/
theorem desks_onward
    (events : List DeskEvent)
    (hReads :
      ∀ t ∈ deskMachine.trace {} events,
        JudgesRead t.before t.input) :
    ∀ t ∈ deskMachine.trace {} events, RulesOnward t := by
  intro t hMem
  have hInit : DesksStepped {} := by
    refine ⟨?_, ?_, ?_⟩
    · intro l hNone
      cases hNone
    · intro k _ hPinged
      cases hPinged
    · intro k hOut
      cases hOut
  have hBefore :=
    (StepMachine.invariant_of_mem_trace DesksStepped
      JudgesRead (fun _ _ => desksStepped_step) hReads hInit
      hMem).1
  have hRead := hReads t hMem
  have hTurn := StepMachine.eq_turn_of_mem_trace hMem
  intro r hOutput
  rw [hTurn] at hOutput
  simp only [StepMachine.turn, deskMachine] at hOutput
  cases hInput : t.input with
  | policyStep k reading arm cfg gate site now =>
      rw [hInput] at hOutput hRead
      cases hOutput
      exact
        policyStep_onward (hBefore.read k hRead) reading arm
          cfg gate site now
  | settle k forced now =>
      rw [hInput] at hOutput
      cases hOut : (t.before.at' k).out <;>
        simp [hOut] at hOutput
  | _ => simp [hInput] at hOutput

def loadedDefault : LoadedConfig where
  config := defaultConfig
  least := by decide
  most := by decide

/- A check of the one process, of the request at `10000`. -/
def deskCheck
    (now : Nat) : DeskEvent :=
  .policyStep 0 (warmReading 10000) none loadedDefault .off
    plainSite now

def resumedRun : List DeskEvent :=
  [ deskCheck 13000, .settle 0 true 13000,
    .resume 0 13700, deskCheck 13700 ]

/- A second check that resumes the first one's ledger. -/
theorem resumedRun_onward :
    (deskMachine.trace {} resumedRun).length = 4 ∧
      ∀ t ∈ deskMachine.trace {} resumedRun,
        RulesOnward t := by
  refine ⟨rfl, ?_⟩
  apply desks_onward
  intro t hMem
  simp only [resumedRun, StepMachine.trace_cons,
    StepMachine.trace_nil, List.mem_cons, List.not_mem_nil,
    or_false] at hMem
  rcases hMem with rfl | rfl | rfl | rfl
  · exact rfl
  · trivial
  · trivial
  · exact rfl

def restartedRun : List DeskEvent :=
  [ deskCheck 13000, .settle 0 true 13000,
    .fromLedger 0 13700, deskCheck 13700 ]

/-
  A policy's check of a state straight from the ledger asks
  again at a time that is past.
-/
theorem not_onward_restarted :
    ¬ ∀ events : List DeskEvent,
      (events.map DeskEvent.now).Pairwise (· ≤ ·) →
        ∀ t ∈ deskMachine.trace {} events,
          RulesOnward t := by
  intro hClaim
  have hAll := hClaim restartedRun (by decide)
  have hWords :
      ((deskMachine.trace {} restartedRun).filterMap
          StepMachine.Turn.output).map
        (fun r => (r.now, r.decision.nextAt)) =
          [(13000, some 13601), (13700, some 13601)] := by
    decide
  have hLast :
      (13700, some 13601) ∈
        ((deskMachine.trace {} restartedRun).filterMap
          StepMachine.Turn.output).map
            (fun r => (r.now, r.decision.nextAt)) := by
    rw [hWords]
    simp
  rcases List.mem_map.mp hLast with ⟨r, hRuling, hWord⟩
  rcases List.mem_filterMap.mp hRuling with
    ⟨t, hMem, hOutput⟩
  simp only [Prod.mk.injEq] at hWord
  have hLater := (hAll t hMem r hOutput).ahead 13601 hWord.2
  omega

end Keepwarm
