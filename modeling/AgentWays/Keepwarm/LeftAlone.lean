import AgentWays.Keepwarm.AnsweredPoll
import AgentWays.Keepwarm.PingSpec
import AgentWays.Keepwarm.Recheck

/-
  A stretch left alone: each check comes at the time the
  last one asked for, and each submitted turn lands at once
  as a warm request of the same context.

  A due point is a keepalive while the count and the windows
  hold, and the check after it only waits. The estimates are
  the same loop over the due points, so every decision names
  the time at which the run comes to the wrap, and then to
  the compaction.

  Key definitions include:
    * `Keepwarm.Around`
    * `Keepwarm.Alone.next`
    * `Keepwarm.Alone.Rests`
    * `Keepwarm.Alone.Starts`

  Main declarations:
    * `Keepwarm.Alone.rests_next`
    * `Keepwarm.Alone.reaches_bound`
    * `Keepwarm.Alone.estimates_hold`
-/

------------------------------------------------------------
-- The Run
------------------------------------------------------------

namespace Keepwarm

/-
  What stays as it is: the settings, the request that a
  turn lands of a context and at a time, and what the wrap's
  report says.
-/
structure Around where
  cfg : LoadedConfig
  gate : Gate
  site : Site
  turn : Nat → Nat → UsageEntry
  outcome : String
  focus : Option String

/- The stretch as the check at `now` finds it. -/
structure Alone where
  state : State
  arm : Option ArmFile
  reading : Reading
  now : Nat

namespace Around

variable (a : Around)

/- The keepalive's distance from the request before it. -/
def step : Nat := ttlSecs - a.cfg.config.marginSecs

/- The policy's marks once a wrap's reply is reported. -/
def reported
    (c : Check) : Policy :=
  if c.decision.action = .wrap then
    { c.state.policy with
      wrapOutcome := some a.outcome
      compactFocus :=
        a.focus.or c.state.policy.compactFocus }
  else c.state.policy

end Around

namespace Alone

def check
    (a : Around)
    (x : Alone) : Check :=
  policyStep x.state x.reading x.arm a.cfg.config a.gate
    a.site x.now

/- The transcript once a submitted turn has landed. -/
def landed
    (a : Around)
    (x : Alone) : Reading :=
  if (x.check a).decision.action = .none then x.reading
  else
    { x.reading with
      usageTail :=
        x.reading.usageTail ++
          [a.turn (x.check a).state.ctx x.now] }

/- The state a check leaves, once its turn is reported. -/
def left
    (a : Around)
    (x : Alone) : State :=
  { (x.check a).state with
    policy := a.reported (x.check a) }

/- The next check; the state crosses the ledger. -/
def next
    (a : Around)
    (x : Alone) : Option Alone :=
  (x.check a).decision.nextAt.map (fun t =>
    { state :=
        State.resume (some ((x.left a).ledger x.now))
      arm := settleArm x.arm x.arm (x.check a).out x.now
      reading := x.landed a
      now := t })

/- The stretch after `n` checks. -/
def after
    (a : Around) : Nat → Alone → Option Alone
| 0, x => some x
| n + 1, x => (x.next a).bind (after a n)

end Alone

end Keepwarm

------------------------------------------------------------
-- Checks At Rest
------------------------------------------------------------

namespace Keepwarm

/- The marks that a decision's turns and times depend on. -/
structure Marks where
  count : Nat
  wrappedAt : Option Nat
  afterCount : Nat
  compactedAt : Option Nat
  compactFocus : Option String
  stopped : Option String
deriving DecidableEq

def Policy.marks
    (p : Policy) : Marks :=
  { count := p.count
    wrappedAt := p.wrappedAt
    afterCount := p.afterCount
    compactedAt := p.compactedAt
    compactFocus := p.compactFocus
    stopped := p.stopped }

namespace Alone

/- The step before the judgment. -/
def poll
    (a : Around)
    (x : Alone) : Poll :=
  policyPoll (recordCheck x.state a.cfg.config a.gate)
    x.reading x.arm x.now

/-
  The check finds the policy running with no wake pending
  and no window open, after the request `last`.
-/
structure Rests
    (a : Around)
    (x : Alone)
    (last : UsageEntry) : Prop where
  unpinged : (x.poll a).state.pingedAt = none
  running : (x.poll a).state.policy.stopped = none
  big : bigTokens ≤ (x.poll a).state.ctx
  seen : (x.poll a).state.lastSeenAt = last.atEpoch
  verdict :
    ∀ r, (x.poll a).state.lastPing = some r →
      r.at' ≤ last.atEpoch
  same :
    0 < x.reading.tokensUsed →
      x.reading.tokensUsed = (x.poll a).state.ctx
  tail : x.reading.usageTail.getLast? = some last
  latest :
    ∀ e ∈ x.reading.usageTail, e.atEpoch ≤ last.atEpoch
  asked : 0 < last.atEpoch
  hour : last.ttlSecs = ttlSecs
  closed : operatorWindow x.arm ≤ x.now

/- The due point after the request `last`. -/
def point
    (a : Around)
    (last : UsageEntry) : DuePoint :=
  { due := last.atEpoch + a.step
    ttl := ttlSecs
    lastAt := last.atEpoch }

variable {a : Around} {x : Alone} {last : UsageEntry}

theorem Rests.deadline_le
    (hRests : Rests a x last) :
    (x.poll a).state.deadline ≤ x.now := by
  have hClosed := hRests.closed
  rcases policyPoll_window
    (recordCheck x.state a.cfg.config a.gate) x.reading
    x.arm x.now with
    ⟨hSame, -⟩ | ⟨hZero, -⟩
  · rw [operatorArm_window] at hSame
    unfold poll
    omega
  · unfold poll
    omega

theorem Rests.observations_eq_nil
    (hRests : Rests a x last) :
    (x.poll a).out.observations = [] := by
  rcases policyPoll_observations
    (recordCheck x.state a.cfg.config a.gate) x.reading
    x.arm x.now with
    hNone | hWoken
  · exact hNone
  · have hOpen := hWoken.isOpen
    have hLate := hRests.deadline_le
    unfold poll at hLate
    omega

theorem Rests.duePoint
    (hRests : Rests a x last) :
    duePoint (x.poll a).state x.reading a.cfg.config =
      .ok (point a last) := by
  have hBig := hRests.big
  unfold Keepwarm.duePoint
  rw [hRests.tail]
  dsimp only
  rw [if_neg (Nat.ne_of_gt hRests.asked), hRests.hour,
    if_neg (Nat.lt_irrefl _), if_neg (Nat.not_lt.mpr hBig)]
  rfl

/- Only the due point is left to judge. -/
theorem Rests.check
    (hRests : Rests a x last)
    (hOn : a.cfg.config.whyOff a.gate = none)
    (hMore :
      afterWrapEnds a.cfg.config (x.poll a).state.policy =
        none) :
    x.check a =
      Check.judgeIdle (x.poll a) x.reading a.cfg.config
        a.site x.now := by
  unfold Alone.check
  rw [policyStep_of_on hOn]
  change Check.judge (x.poll a) _ _ _ _ = _
  have hNotOpen :
      ¬ (x.poll a).state.deadline > x.now := by
    have hLate := hRests.deadline_le
    omega
  unfold Check.judge
  simp only [hRests.observations_eq_nil, hNotOpen, hMore,
    hRests.running, if_false]

end Alone

end Keepwarm

------------------------------------------------------------
-- What A Check At Rest Says
------------------------------------------------------------

namespace Keepwarm

@[simp] theorem Decision.estimate_wrapsAt
    (d : Decision)
    (cfg : Config)
    (p : Policy)
    (due ttl : Nat) :
    (d.estimate cfg p due ttl).wrapsAt =
      if p.wrappedAt.isNone then
        Keepwarm.wrapsAt cfg p.count due ttl
      else d.wrapsAt := by
  unfold Decision.estimate
  dsimp only
  split <;> rfl

@[simp] theorem Decision.estimate_compactsAt
    (d : Decision)
    (cfg : Config)
    (p : Policy)
    (due ttl : Nat) :
    (d.estimate cfg p due ttl).compactsAt =
      Keepwarm.compactsAt cfg p due ttl := rfl

namespace Alone

/-
  A decision's turn and times: the next check, and from the
  policy's marks `p` and the due point `due` the estimates.
-/
structure Says
    (a : Around)
    (x : Alone)
    (action : Action)
    (next : Nat)
    (p : Policy)
    (due : Nat) : Prop where
  action : (x.check a).decision.action = action
  nextAt : (x.check a).decision.nextAt = some next
  wrapsAt :
    p.wrappedAt = none →
      (x.check a).decision.wrapsAt =
        Keepwarm.wrapsAt a.cfg.config p.count due ttlSecs
  compactsAt :
    (x.check a).decision.compactsAt =
      Keepwarm.compactsAt a.cfg.config p due ttlSecs

/- The check leaves the policy's marks and a wake, or none. -/
structure Leaves
    (a : Around)
    (x : Alone)
    (pinged : Option Nat)
    (marks : Marks) : Prop where
  state :
    (x.check a).state =
      { (x.poll a).state with
        policy := (x.check a).state.policy
        pingedAt := pinged }
  armWrite :
    (x.check a).out.armWrite = (x.poll a).out.armWrite
  marks : (x.check a).state.policy.marks = marks

variable {a : Around} {x : Alone} {last : UsageEntry}

/- What a keepalive's decision says, after its count. -/
theorem says_keepalive
    {s : State}
    {out : Outcome}
    {standing : Standing}
    {reason : String}
    (hCheck :
      x.check a =
        { state := s
          out := out
          decision :=
            Check.keepaliveDecision a.cfg.config s
              (point a last) x.now standing reason }) :
    Says a x .keepalive (x.now + verdictSecs + 1)
      (x.check a).state.policy (x.now + a.step) := by
  constructor
  · rw [hCheck]
    simp [Check.keepaliveDecision]
  · rw [hCheck]
    simp [Check.keepaliveDecision]
  · intro hBefore
    rw [hCheck] at hBefore ⊢
    dsimp only at hBefore ⊢
    unfold Check.keepaliveDecision
    rw [Decision.estimate_wrapsAt, hBefore]
    rfl
  · rw [hCheck]
    rfl

/- Before the due point the check waits for it. -/
theorem Rests.waits
    (hRests : Rests a x last)
    (hOn : a.cfg.config.whyOff a.gate = none)
    (hMore :
      afterWrapEnds a.cfg.config (x.poll a).state.policy =
        none)
    (hEarly : x.now < (point a last).due) :
    Says a x .none (point a last).due
        (x.poll a).state.policy (point a last).due ∧
      Leaves a x none (x.poll a).state.policy.marks := by
  have hCheck := hRests.check hOn hMore
  unfold Check.judgeIdle at hCheck
  simp only [hRests.unpinged, hRests.duePoint, hEarly,
    if_true] at hCheck
  constructor
  · constructor
    · rw [hCheck]
      simp [Decision.new]
    · rw [hCheck]
      simp
    · intro hBefore
      rw [hCheck]
      simp [hBefore, point]
    · rw [hCheck]
      simp [point]
  · refine ⟨?_, ?_, ?_⟩
    · rw [hCheck, ← hRests.unpinged]
    · rw [hCheck]
    · rw [hCheck]

/- At the due point, with the cache warm, a turn is due. -/
theorem Rests.due
    (hRests : Rests a x last)
    (hOn : a.cfg.config.whyOff a.gate = none)
    (hMore :
      afterWrapEnds a.cfg.config (x.poll a).state.policy =
        none)
    (hDue : (point a last).due ≤ x.now)
    (hWarm : x.now < last.atEpoch + (ttlSecs - gateMarginSecs)) :
    x.check a =
      if (x.poll a).state.policy.wrappedAt.isSome then
        Check.afterWrapDue
          { x.poll a with out.changed := true }
          a.cfg.config (point a last) x.now
      else
        Check.dueTurn { x.poll a with out.changed := true }
          a.cfg.config a.site (point a last) x.now := by
  have hCheck := hRests.check hOn hMore
  have hNot : ¬ x.now < (point a last).due := by omega
  unfold Check.judgeIdle at hCheck
  simp only [hRests.unpinged, hRests.duePoint, hNot,
    if_false] at hCheck
  have hFresh : cacheLapsed (some x.reading) x.now = false := by
    have hAsked := hRests.asked
    have hAfter : last.atEpoch ≤ x.now :=
      Nat.le_trans (Nat.le_add_right _ _) hDue
    unfold cacheLapsed
    rw [Option.bind_some, hRests.tail]
    dsimp only
    rw [if_pos hAsked, hRests.hour]
    simp only [ge_iff_le, decide_eq_false_iff_not, Nat.not_le]
    omega
  rw [hCheck]
  unfold Check.atDue
  simp only [hFresh, Bool.false_eq_true, if_false]

end Alone

end Keepwarm

------------------------------------------------------------
-- Due Turns At Rest
------------------------------------------------------------

namespace Keepwarm

namespace Alone

variable {a : Around} {x : Alone} {last : UsageEntry}

/- The marks before the wrap, after `count` keepalives. -/
def before
    (count : Nat) : Marks :=
  { count := count
    wrappedAt := none
    afterCount := 0
    compactedAt := none
    compactFocus := none
    stopped := none }

theorem afterWrapEnds_of_before
    {p : Policy}
    {count : Nat}
    (hMarks : p.marks = before count)
    (cfg : Config) :
    afterWrapEnds cfg p = none := by
  have hWrapped : p.wrappedAt = none :=
    congrArg Marks.wrappedAt hMarks
  unfold afterWrapEnds
  rw [hWrapped]

/- A due point before the wrap, with the cache warm. -/
structure DueBefore
    (a : Around)
    (x : Alone)
    (last : UsageEntry)
    (count : Nat) : Prop where
  rests : Rests a x last
  marks : (x.poll a).state.policy.marks = before count
  due : (point a last).due ≤ x.now
  warm : x.now < last.atEpoch + (ttlSecs - gateMarginSecs)

/- The count and the windows hold: a keepalive. -/
theorem DueBefore.keepalive
    {count : Nat}
    (hDue : DueBefore a x last count)
    (hOn : a.cfg.config.whyOff a.gate = none)
    (hCount : count < a.cfg.config.max)
    (hInside : a.cfg.config.windows.contains x.now = true) :
    Says a x .keepalive (x.now + verdictSecs + 1)
        (x.check a).state.policy (x.now + a.step) ∧
      Leaves a x (some x.now) (before (count + 1)) := by
  have hWrapped : (x.poll a).state.policy.wrappedAt = none :=
    congrArg Marks.wrappedAt hDue.marks
  have hCounted : (x.poll a).state.policy.count = count :=
    congrArg Marks.count hDue.marks
  have hCheck :=
    hDue.rests.due hOn
      (afterWrapEnds_of_before hDue.marks _) hDue.due
      hDue.warm
  rw [hWrapped, if_neg (by simp)] at hCheck
  rcases Check.stretch_cases (x.poll a).state
    (point a last).lastAt with ⟨stretch, hStretch⟩
  unfold Check.dueTurn at hCheck
  dsimp only at hCheck
  rw [hStretch] at hCheck
  have hMore :
      ¬ decide
          ((x.poll a).state.policy.count ≥
            a.cfg.config.max) = true ∧
        a.cfg.config.windows.contains x.now = true := by
    rw [hCounted]
    exact ⟨by simpa using hCount, hInside⟩
  dsimp only at hCheck
  rw [if_pos hMore] at hCheck
  refine ⟨says_keepalive hCheck, ?_, ?_, ?_⟩
  · rw [hCheck]
  · rw [hCheck]
  · rw [hCheck]
    have hMarks := hDue.marks
    simp only [Policy.marks, before, Marks.mk.injEq]
      at hMarks ⊢
    exact ⟨by rw [hCounted], hMarks.2⟩

/- The count is spent, or the windows are over: the wrap. -/
theorem DueBefore.wrap
    {count : Nat}
    (hDue : DueBefore a x last count)
    (hOn : a.cfg.config.whyOff a.gate = none)
    (hWraps : a.cfg.config.noWrap = none)
    (hBound :
      a.cfg.config.max ≤ count ∨
        a.cfg.config.windows.contains x.now = false) :
    (x.check a).decision.action = .wrap ∧
      Leaves a x none
        { before count with wrappedAt := some x.now } ∧
      (0 < a.cfg.config.afterMax →
        Says a x .wrap (x.now + a.step)
          (x.check a).state.policy (x.now + a.step)) := by
  have hWrapped : (x.poll a).state.policy.wrappedAt = none :=
    congrArg Marks.wrappedAt hDue.marks
  have hCounted : (x.poll a).state.policy.count = count :=
    congrArg Marks.count hDue.marks
  have hCheck :=
    hDue.rests.due hOn
      (afterWrapEnds_of_before hDue.marks _) hDue.due
      hDue.warm
  rw [hWrapped, if_neg (by simp)] at hCheck
  rcases Check.stretch_cases (x.poll a).state
    (point a last).lastAt with ⟨stretch, hStretch⟩
  unfold Check.dueTurn at hCheck
  dsimp only at hCheck
  rw [hStretch] at hCheck
  have hOver :
      ¬ (¬ decide
            ((x.poll a).state.policy.count ≥
              a.cfg.config.max) = true ∧
          a.cfg.config.windows.contains x.now = true) := by
    rw [hCounted]
    rintro ⟨hCount, hInside⟩
    rcases hBound with hSpent | hOutside
    · exact hCount (by simpa using hSpent)
    · rw [hOutside] at hInside
      cases hInside
  dsimp only at hCheck
  rw [if_neg hOver] at hCheck
  rw [hWraps] at hCheck
  dsimp only at hCheck
  refine ⟨?_, ⟨?_, ?_, ?_⟩, ?_⟩
  · rw [hCheck]
    dsimp only
    split <;> simp
  · rw [hCheck, ← hDue.rests.unpinged]
  · rw [hCheck]
  · rw [hCheck]
    have hMarks := hDue.marks
    simp only [Policy.marks, before, Marks.mk.injEq]
      at hMarks ⊢
    exact ⟨hMarks.1, trivial, hMarks.2.2⟩
  · intro hAfter
    rw [if_pos hAfter] at hCheck
    constructor
    · rw [hCheck]
      simp
    · rw [hCheck]
      simp [point, Around.step]
    · intro hBefore
      rw [hCheck] at hBefore
      cases hBefore
    · rw [hCheck]
      rfl

end Alone

end Keepwarm

------------------------------------------------------------
-- Due Turns After The Wrap
------------------------------------------------------------

namespace Keepwarm

namespace Alone

variable {a : Around} {x : Alone} {last : UsageEntry}

/- The marks after the wrap and its report. -/
def wrapped
    (count at' after : Nat)
    (focus : String) : Marks :=
  { count := count
    wrappedAt := some at'
    afterCount := after
    compactedAt := none
    compactFocus := some focus
    stopped := none }

/- A compaction follows the wrap at a due point. -/
structure Compacts
    (a : Around) : Prop where
  kind : a.cfg.config.afterWrap = .compact
  most : 0 < a.cfg.config.afterMax

theorem Compacts.more
    {p : Policy}
    {count at' after : Nat}
    {focus : String}
    (hCompacts : Compacts a)
    (hMarks : p.marks = wrapped count at' after focus) :
    afterWrapEnds a.cfg.config p = none := by
  have hMost := hCompacts.most
  simp only [Policy.marks, wrapped, Marks.mk.injEq] at hMarks
  rcases hMarks with
    ⟨-, hWrapped, -, hCompacted, hFocus, hStopped⟩
  unfold afterWrapEnds
  simp only [hWrapped, hCompacted, hStopped]
  rw [if_neg (by omega), if_pos]
  exact Or.inr ⟨hCompacts.kind, by simp [hFocus]⟩

/- A due point after the wrap, with the cache warm. -/
structure DueAfter
    (a : Around)
    (x : Alone)
    (last : UsageEntry)
    (count at' after : Nat)
    (focus : String) : Prop where
  rests : Rests a x last
  marks :
    (x.poll a).state.policy.marks =
      wrapped count at' after focus
  due : (point a last).due ≤ x.now
  warm : x.now < last.atEpoch + (ttlSecs - gateMarginSecs)

section DueAfter

variable {count at' after : Nat} {focus : String}

theorem DueAfter.check
    (hDue : DueAfter a x last count at' after focus)
    (hOn : a.cfg.config.whyOff a.gate = none)
    (hCompacts : Compacts a) :
    x.check a =
      Check.afterWrapDue
        { x.poll a with out.changed := true }
        a.cfg.config (point a last) x.now := by
  have hWrapped :
      (x.poll a).state.policy.wrappedAt = some at' :=
    congrArg Marks.wrappedAt hDue.marks
  rw [hDue.rests.due hOn (hCompacts.more hDue.marks)
    hDue.due hDue.warm, hWrapped]
  rfl

theorem DueAfter.keepalive
    (hDue : DueAfter a x last count at' after focus)
    (hOn : a.cfg.config.whyOff a.gate = none)
    (hCompacts : Compacts a)
    (hCount : after < a.cfg.config.afterMax)
    (hInside : a.cfg.config.windows.contains x.now = true) :
    Says a x .keepalive (x.now + verdictSecs + 1)
        (x.check a).state.policy (x.now + a.step) ∧
      Leaves a x (some x.now)
        (wrapped count at' (after + 1) focus) := by
  have hCounted : (x.poll a).state.policy.afterCount = after :=
    congrArg Marks.afterCount hDue.marks
  have hCheck := hDue.check hOn hCompacts
  unfold Check.afterWrapDue at hCheck
  dsimp only at hCheck
  rw [if_pos ⟨by rw [hCounted]; exact hCount, hInside⟩]
    at hCheck
  refine ⟨says_keepalive hCheck, ?_, ?_, ?_⟩
  · rw [hCheck]
  · rw [hCheck]
  · rw [hCheck]
    have hMarks := hDue.marks
    simp only [Policy.marks, wrapped, Marks.mk.injEq]
      at hMarks ⊢
    exact
      ⟨hMarks.1, hMarks.2.1, by rw [hCounted],
        hMarks.2.2.2⟩

theorem DueAfter.compact
    (hDue : DueAfter a x last count at' after focus)
    (hOn : a.cfg.config.whyOff a.gate = none)
    (hCompacts : Compacts a)
    (hBound :
      a.cfg.config.afterMax ≤ after ∨
        a.cfg.config.windows.contains x.now = false) :
    (x.check a).decision.action = .compact := by
  have hCounted : (x.poll a).state.policy.afterCount = after :=
    congrArg Marks.afterCount hDue.marks
  have hFocus :
      (x.poll a).state.policy.compactFocus = some focus :=
    congrArg Marks.compactFocus hDue.marks
  have hOver :
      ¬ ((x.poll a).state.policy.afterCount <
            a.cfg.config.afterMax ∧
          a.cfg.config.windows.contains x.now = true) := by
    rw [hCounted]
    rintro ⟨hCount, hInside⟩
    rcases hBound with hSpent | hOutside
    · omega
    · rw [hOutside] at hInside
      cases hInside
  rw [hDue.check hOn hCompacts]
  unfold Check.afterWrapDue
  dsimp only
  rw [if_neg hOver]
  simp only [hCompacts.kind, hFocus]

end DueAfter

end Alone

end Keepwarm

------------------------------------------------------------
-- The Next Check
------------------------------------------------------------

namespace Keepwarm

/- Every submitted turn lands warm, of the same context. -/
structure Around.LandsWarm
    (a : Around) : Prop where
  warm : ∀ ctx now, WarmRequest ctx (a.turn ctx now)
  at' : ∀ ctx now, (a.turn ctx now).atEpoch = now
  hour : ∀ ctx now, (a.turn ctx now).ttlSecs = ttlSecs

namespace Alone

variable {a : Around} {x : Alone} {last : UsageEntry}

theorem Rests.newEntries_eq_nil
    (hRests : Rests a x last)
    {s : State}
    (hSeen : s.lastSeenAt = last.atEpoch) :
    Poll.newEntries s x.reading = [] := by
  unfold Poll.newEntries
  rw [List.filter_eq_nil_iff, hSeen]
  intro e hMem
  have hOld := hRests.latest e hMem
  simpa using hOld

/- The request that a turn lands is the only new one. -/
theorem Rests.newEntries_landed
    (hRests : Rests a x last)
    {s : State}
    {entry : UsageEntry}
    (hSeen : s.lastSeenAt = last.atEpoch)
    (hLater : last.atEpoch < entry.atEpoch) :
    Poll.newEntries s
        { x.reading with
          usageTail := x.reading.usageTail ++ [entry] } =
      [entry] := by
  have hOld := hRests.newEntries_eq_nil hSeen
  unfold Poll.newEntries at hOld ⊢
  rw [List.filter_append, hOld]
  simp [hSeen, hLater]

theorem stopped_reported
    (c : Check) :
    (a.reported c).stopped = c.state.policy.stopped := by
  unfold Around.reported
  split <;> rfl

theorem policyPoll_lastSeenAt
    {s : State}
    (hBaselined : s.baselined = true)
    (reading : Reading)
    (arm : Option ArmFile)
    (now : Nat) :
    (policyPoll s reading arm now).state.lastSeenAt =
      ((Poll.newEntries s reading).getLast?.map
        UsageEntry.atEpoch).getD s.lastSeenAt := by
  rcases policyPoll_state s reading arm now with ⟨_, hState⟩
  rcases operatorArm_state s arm with ⟨deadline, hRead⟩
  rw [hState]
  dsimp only
  rw [State.stepWith_lastSeenAt (by rw [hRead]; exact hBaselined),
    hRead]
  rfl

/-
  A check rests that reads nothing new, or one warm request,
  in a state that the last check left.
-/
theorem rests_of_news
    (hBaselined : x.state.baselined = true)
    (hSynced : Synced x.state x.arm)
    (hClosed : operatorWindow x.arm ≤ x.now)
    (hNews : News x.state x.reading)
    (hOld :
      ∀ r, x.state.lastPing = some r →
        r.at' ≤ last.atEpoch)
    (hLater :
      ∀ r, x.state.lastPing = some r →
        ∀ e ∈ Poll.newEntries x.state x.reading,
          r.at' < e.atEpoch)
    (hNew :
      ∀ e ∈ Poll.newEntries x.state x.reading,
        e.atEpoch ≤ last.atEpoch)
    (hSeen :
      ((Poll.newEntries x.state x.reading).getLast?.map
          UsageEntry.atEpoch).getD x.state.lastSeenAt =
        last.atEpoch)
    (hRunning : x.state.policy.stopped = none)
    (hBig : bigTokens ≤ x.state.ctx)
    (hSame :
      0 < x.reading.tokensUsed →
        x.reading.tokensUsed = x.state.ctx)
    (hTail : x.reading.usageTail.getLast? = some last)
    (hLatest :
      ∀ e ∈ x.reading.usageTail,
        e.atEpoch ≤ last.atEpoch)
    (hAsked : 0 < last.atEpoch)
    (hHour : last.ttlSecs = ttlSecs) :
    Rests a x last ∧
      (x.poll a).state.policy.marks =
        x.state.policy.marks := by
  have hCalm :
      Calm (recordCheck x.state a.cfg.config a.gate)
        x.reading last.atEpoch (x.poll a) :=
    policyPoll_news hBaselined hSynced hClosed
      (by
        cases hNews with
        | silent hNil hUnpinged =>
            exact .silent hNil hUnpinged
        | landed entry hOne hCtx hWarm hAnswers =>
            exact .landed entry hOne hCtx hWarm hAnswers)
      hOld hLater hNew
  have hCtx : (x.poll a).state.ctx = x.state.ctx := by
    rw [hCalm.ctx]
    unfold readCtx
    split
    · rename_i hCounted
      exact hSame hCounted
    · rfl
  rcases hCalm.policy with ⟨pending, spent, hPolicy⟩
  refine ⟨?_, by rw [hPolicy]; rfl⟩
  exact
    { unpinged := hCalm.unpinged
      running := by rw [hPolicy]; exact hRunning
      big := by rw [hCtx]; exact hBig
      seen := by
        unfold Alone.poll
        rw [policyPoll_lastSeenAt
          (s := recordCheck x.state a.cfg.config a.gate)
          hBaselined]
        exact hSeen
      verdict := hCalm.verdict
      same := by rw [hCtx]; exact hSame
      tail := hTail
      latest := hLatest
      asked := hAsked
      hour := hHour
      closed := hClosed }

/- The next check, in the state that this one leaves. -/
theorem next_eq
    {next : Nat}
    (hBaselined : (x.left a).baselined = true)
    (hNext : (x.check a).decision.nextAt = some next) :
    x.next a =
      some
        { state := x.left a
          arm :=
            settleArm x.arm x.arm (x.check a).out x.now
          reading := x.landed a
          now := next } := by
  unfold Alone.next
  rw [hNext, Option.map_some,
    State.resume_ledger hBaselined]

/- The next check rests, after the same request or the turn's. -/
theorem rests_next
    (hRests : Rests a x last)
    (hLands : a.LandsWarm)
    {pinged : Option Nat}
    {marks : Marks}
    {next : Nat}
    (hLeaves : Leaves a x pinged marks)
    (hRunning : marks.stopped = none)
    (hNext : (x.check a).decision.nextAt = some next)
    (hLater : x.now ≤ next)
    (hTurn :
      ((x.check a).decision.action = .none ∧
          pinged = none) ∨
        ((x.check a).decision.action ≠ .none ∧
          last.atEpoch < x.now ∧
            ∀ t, pinged = some t → t = x.now)) :
    ∃ y last',
      x.next a = some y ∧ y.now = next ∧
        Rests a y last' ∧
        last'.atEpoch =
          (if (x.check a).decision.action = .none then
            last.atEpoch
          else x.now) ∧
        (y.poll a).state.policy.marks =
          (a.reported (x.check a)).marks := by
  have hState :
      x.left a =
        { (x.poll a).state with
          policy := a.reported (x.check a)
          pingedAt := pinged } := by
    unfold Alone.left
    rw [hLeaves.state]
  have hBaselined : (x.left a).baselined = true := by
    rw [hState]
    exact policyPoll_baselined _ _ _ _
  have hCtx : (x.left a).ctx = (x.poll a).state.ctx := by
    rw [hState]
  have hSeen : (x.left a).lastSeenAt = last.atEpoch := by
    rw [hState]
    exact hRests.seen
  have hStopped : (x.left a).policy.stopped = none := by
    rw [hState]
    change (a.reported (x.check a)).stopped = none
    rw [stopped_reported, ← hRunning, ← hLeaves.marks]
    rfl
  have hDeadline :
      (x.left a).deadline =
        (policyPoll (recordCheck x.state a.cfg.config a.gate)
          x.reading x.arm x.now).state.deadline := by
    rw [hState]
    rfl
  have hSynced :=
    synced_settleArm hRests.closed hDeadline hLeaves.armWrite
  have hClosed := Nat.le_trans hSynced.2 hLater
  have hBig : bigTokens ≤ (x.left a).ctx := by
    rw [hCtx]
    exact hRests.big
  have hVerdict :
      ∀ r, (x.left a).lastPing = some r →
        r.at' ≤ last.atEpoch := by
    rw [hState]
    exact hRests.verdict
  have hSame :
      0 < x.reading.tokensUsed →
        x.reading.tokensUsed = (x.left a).ctx := by
    rw [hCtx]
    exact hRests.same
  have hEq := next_eq hBaselined hNext
  rcases hTurn with
    ⟨hNone, hUnpinged⟩ | ⟨hSome, hAfter, hWake⟩
  · have hReading : x.landed a = x.reading := by
      unfold landed
      rw [if_pos hNone]
    rw [hReading] at hEq
    have hNil := hRests.newEntries_eq_nil hSeen
    rw [if_pos hNone]
    refine ⟨_, last, hEq, rfl, ?_⟩
    have hRest :=
      rests_of_news (a := a)
        (x := ⟨x.left a, _, x.reading, next⟩)
        hBaselined hSynced.1 hClosed
        (.silent hNil (by rw [hState]; exact hUnpinged))
        hVerdict (by rw [hNil]; simp) (by rw [hNil]; simp)
        (by rw [hNil]; exact hSeen) hStopped hBig hSame
        hRests.tail hRests.latest hRests.asked hRests.hour
    exact ⟨hRest.1, rfl, hRest.2⟩
  · -- The turn's request is the one that is new.
    have hAt := hLands.at' (x.check a).state.ctx x.now
    have hWarm := hLands.warm (x.check a).state.ctx x.now
    have hHour := hLands.hour (x.check a).state.ctx x.now
    have hReading :
        x.landed a =
          { x.reading with
            usageTail :=
              x.reading.usageTail ++
                [a.turn (x.check a).state.ctx x.now] } := by
      unfold landed
      rw [if_neg hSome]
    generalize
      a.turn (x.check a).state.ctx x.now = entry
      at hAt hWarm hHour hReading
    rw [hReading] at hEq
    have hLate : last.atEpoch < entry.atEpoch := by
      rw [hAt]
      exact hAfter
    have hNew := hRests.newEntries_landed hSeen hLate
    rw [if_neg hSome]
    refine ⟨_, entry, hEq, rfl, ?_⟩
    have hRest :=
      rests_of_news (a := a)
        (x :=
          ⟨x.left a, _,
            { x.reading with
              usageTail := x.reading.usageTail ++ [entry] },
            next⟩)
        hBaselined hSynced.1 hClosed
        (.landed entry hNew
          (Nat.lt_of_lt_of_le (by decide) hBig) hWarm
          (by
            rw [hState]
            intro t hPinged
            have hNow := hWake t hPinged
            omega))
        (by
          intro r hRecord
          have hOld := hVerdict r hRecord
          omega)
        (by
          rw [hNew]
          intro r hRecord e hMem
          have hOld := hVerdict r hRecord
          cases List.mem_singleton.mp hMem
          omega)
        (by rw [hNew]; simp)
        (by rw [hNew]; rfl) hStopped hBig hSame
        (by simp)
        (by
          intro e hMem
          rcases List.mem_append.mp hMem with hPast | hNow
          · have hOld := hRests.latest e hPast
            omega
          · cases List.mem_singleton.mp hNow
            exact Nat.le_refl _)
        (by omega) hHour
    exact ⟨hRest.1, hAt, hRest.2⟩

end Alone

end Keepwarm

------------------------------------------------------------
-- Estimates And Due Points
------------------------------------------------------------

namespace Keepwarm

/- The policy runs, a wrap follows, and turns land warm. -/
structure Around.Runs
    (a : Around) : Prop where
  on : a.cfg.config.whyOff a.gate = none
  wraps : a.cfg.config.noWrap = none
  lands : a.LandsWarm

namespace Around

variable {a : Around}

theorem step_bounds
    (a : Around) :
    ttlSecs - marginRange.2 * 60 ≤ a.step ∧
      a.step ≤ ttlSecs - marginRange.1 * 60 := by
  have hLeast := a.cfg.least
  have hMost := a.cfg.most
  unfold step
  omega

/- The estimates' step is the run's. -/
theorem max_step
    (a : Around) :
    Nat.max (ttlSecs - a.cfg.config.marginSecs) 60 =
      a.step := by
  have hBounds := a.step_bounds
  simp only [ttlSecs, marginRange] at hBounds
  apply Nat.max_eq_left
  change 60 ≤ a.step
  omega

/- The first due point past the bounds, from `t` on. -/
def bound
    (a : Around)
    (left t : Nat) : Nat :=
  boundAt a.cfg.config.windows a.step left t

/- The compaction's time after a wrap at `t`. -/
def compaction
    (a : Around)
    (t : Nat) : Nat :=
  a.bound a.cfg.config.afterMax (t + a.step)

theorem wrapsAt_eq
    (hWraps : a.cfg.config.noWrap = none)
    (count due : Nat) :
    wrapsAt a.cfg.config count due ttlSecs =
      some (a.bound (a.cfg.config.max - count) due) := by
  unfold wrapsAt bound
  rw [hWraps, a.max_step]
  rfl

theorem compactsAt_of_unwrapped
    {p : Policy}
    (hWraps : a.cfg.config.noWrap = none)
    (hCompacts : Alone.Compacts a)
    (hWrapped : p.wrappedAt = none)
    (hCompacted : p.compactedAt = none)
    (due : Nat) :
    compactsAt a.cfg.config p due ttlSecs =
      some
        (a.compaction
          (a.bound (a.cfg.config.max - p.count) due)) := by
  have hMost := hCompacts.most
  unfold compactsAt
  rw [if_neg (by
    simp [hCompacts.kind, hCompacted, Nat.ne_of_gt hMost])]
  dsimp only
  rw [hWrapped, wrapsAt_eq hWraps, a.max_step]
  rfl

theorem compactsAt_of_wrapped
    {p : Policy}
    {at' : Nat}
    (hCompacts : Alone.Compacts a)
    (hWrapped : p.wrappedAt = some at')
    (hCompacted : p.compactedAt = none)
    (due : Nat) :
    compactsAt a.cfg.config p due ttlSecs =
      some
        (a.bound (a.cfg.config.afterMax - p.afterCount)
          due) := by
  have hMost := hCompacts.most
  unfold compactsAt
  rw [if_neg (by
    simp [hCompacts.kind, hCompacted, Nat.ne_of_gt hMost])]
  dsimp only
  rw [hWrapped, a.max_step]
  rfl

end Around

namespace Alone

variable {a : Around} {x : Alone} {last : UsageEntry}

@[simp] theorem after_zero
    (a : Around)
    (x : Alone) :
    after a 0 x = some x := rfl

theorem after_succ
    {y : Alone}
    (hNext : x.next a = some y)
    (n : Nat) :
    after a (n + 1) x = after a n y := by
  simp [after, hNext]

theorem after_add
    {y : Alone}
    {n : Nat}
    (hAfter : after a n x = some y)
    (m : Nat) :
    after a (n + m) x = after a m y := by
  induction n generalizing x with
  | zero =>
      rw [after_zero, Option.some.injEq] at hAfter
      rw [Nat.zero_add, hAfter]
  | succ n ih =>
      cases hNext : x.next a with
      | none => simp [after, hNext] at hAfter
      | some z =>
          rw [after_succ hNext] at hAfter
          rw [Nat.succ_add, after_succ hNext]
          exact ih hAfter

/-
  A due point with `left` keepalives to go comes to the
  bound, where the keepalives are spent or the windows over,
  and each check before says what holds of that time.
-/
theorem reaches_bound
    {Due : Nat → Alone → Prop}
    {Said : Nat → Alone → Prop}
    (hStep :
      ∀ left x, Due (left + 1) x →
        a.cfg.config.windows.contains x.now = true →
          ∃ y z,
            x.next a = some y ∧ y.next a = some z ∧
              Due left z ∧ z.now = x.now + a.step ∧
                Said (a.bound left z.now) x ∧
                  Said (a.bound left z.now) y)
    (left : Nat)
    (x : Alone)
    (hDue : Due left x) :
    ∃ n y rest,
      after a n x = some y ∧
        y.now = a.bound left x.now ∧ Due rest y ∧
          (rest = 0 ∨
            a.cfg.config.windows.contains y.now = false) ∧
            ∀ k < n, ∃ z,
              after a k x = some z ∧
                Said (a.bound left x.now) z := by
  induction left generalizing x with
  | zero =>
      exact
        ⟨0, x, 0, rfl, rfl, hDue, Or.inl rfl,
          fun k hK => absurd hK (Nat.not_lt_zero k)⟩
  | succ left ih =>
      cases hInside : a.cfg.config.windows.contains x.now with
      | false =>
          have hHere : a.bound (left + 1) x.now = x.now := by
            unfold Around.bound
            rw [boundAt, if_neg (by simp [hInside])]
          exact
            ⟨0, x, left + 1, rfl, hHere.symm, hDue,
              Or.inr hInside,
              fun k hK => absurd hK (Nat.not_lt_zero k)⟩
      | true =>
          rcases hStep left x hDue hInside with
            ⟨y, z, hY, hZ, hDueZ, hNow, hSaidX, hSaidY⟩
          have hOn :
              a.bound (left + 1) x.now =
                a.bound left z.now := by
            unfold Around.bound
            rw [boundAt, if_pos hInside, hNow]
          rcases ih z hDueZ with
            ⟨n, w, rest, hAfter, hAt, hRest, hBound, hSaid⟩
          rw [hOn]
          refine
            ⟨n + 2, w, rest, ?_, hAt, hRest, hBound, ?_⟩
          · rw [after_succ hY, after_succ hZ]
            exact hAfter
          · intro k hK
            match k with
            | 0 => exact ⟨x, rfl, hSaidX⟩
            | 1 => exact ⟨y, after_succ hY 0, hSaidY⟩
            | k + 2 =>
                rw [after_succ hY, after_succ hZ]
                exact hSaid k (by omega)

/- A keepalive, the check that waits, and the due point. -/
theorem keepalive_waits
    (hRuns : a.Runs)
    (hRests : Rests a x last)
    (hDue : (point a last).due ≤ x.now)
    {marks : Marks}
    (hMore :
      ∀ p : Policy, p.marks = marks →
        afterWrapEnds a.cfg.config p = none)
    (hRunning : marks.stopped = none)
    (hSays :
      Says a x .keepalive (x.now + verdictSecs + 1)
        (x.check a).state.policy (x.now + a.step))
    (hLeaves : Leaves a x (some x.now) marks) :
    ∃ y z last',
      x.next a = some y ∧ y.next a = some z ∧
        Rests a z last' ∧ (point a last').due ≤ z.now ∧
          z.now <
            last'.atEpoch + (ttlSecs - gateMarginSecs) ∧
          z.now = x.now + a.step ∧
          (z.poll a).state.policy.marks = marks ∧
          (y.poll a).state.policy.marks = marks ∧
          Says a y .none z.now (y.poll a).state.policy
            z.now := by
  have hBounds := a.step_bounds
  simp only [ttlSecs, marginRange] at hBounds
  have hBefore : last.atEpoch < x.now := by
    simp only [point] at hDue
    omega
  have hReported :
      (a.reported (x.check a)).marks = marks := by
    unfold Around.reported
    rw [if_neg (by rw [hSays.action]; simp)]
    exact hLeaves.marks
  rcases rests_next hRests hRuns.lands hLeaves hRunning
      hSays.nextAt (by omega)
      (Or.inr
        ⟨by rw [hSays.action]; simp, hBefore,
          fun t hSome => (Option.some.inj hSome).symm⟩) with
    ⟨y, last', hY, hNowY, hRestsY, hLast, hMarksY⟩
  rw [if_neg (by rw [hSays.action]; simp)] at hLast
  rw [hReported] at hMarksY
  have hEarly : y.now < (point a last').due := by
    simp only [point, hLast, hNowY, verdictSecs, ttlSecs,
      pingAfterSecs]
    omega
  rcases hRestsY.waits hRuns.on (hMore _ hMarksY) hEarly with
    ⟨hSaysY, hLeavesY⟩
  rcases rests_next hRestsY hRuns.lands hLeavesY
      (by rw [hMarksY]; exact hRunning) hSaysY.nextAt
      (by omega) (Or.inl ⟨hSaysY.action, rfl⟩) with
    ⟨z, last'', hZ, hNowZ, hRestsZ, hLastZ, hMarksZ⟩
  rw [if_pos hSaysY.action] at hLastZ
  have hReportedY :
      (a.reported (y.check a)).marks = marks := by
    unfold Around.reported
    rw [if_neg (by rw [hSaysY.action]; simp),
      hLeavesY.marks]
    exact hMarksY
  have hAt : z.now = x.now + a.step := by
    rw [hNowZ]
    simp only [point, hLast]
  refine
    ⟨y, z, last'', hY, hZ, hRestsZ, ?_, ?_, hAt,
      hMarksZ.trans hReportedY, hMarksY, ?_⟩
  · simp only [point, hLastZ, hLast, hAt]
    exact Nat.le_refl _
  · rw [hAt, hLastZ, hLast]
    simp only [ttlSecs, gateMarginSecs]
    omega
  · rw [hNowZ]
    exact hSaysY

end Alone

end Keepwarm

------------------------------------------------------------
-- The Wrap And The Compaction Foretold
------------------------------------------------------------

namespace Keepwarm

namespace Alone

variable {a : Around} {x : Alone} {last : UsageEntry}

/- Before the wrap a decision names the wrap at `t`. -/
structure NamesWrap
    (a : Around)
    (t : Nat)
    (x : Alone) : Prop where
  other : (x.check a).decision.action ≠ .wrap
  open' : (x.check a).decision.action ≠ .compact
  wrapsAt : (x.check a).decision.wrapsAt = some t
  compactsAt :
    Compacts a →
      (x.check a).decision.compactsAt =
        some (a.compaction t)

/- Before the compaction a decision names it at `t`. -/
structure NamesCompaction
    (a : Around)
    (t : Nat)
    (x : Alone) : Prop where
  other : (x.check a).decision.action ≠ .compact
  compactsAt : (x.check a).decision.compactsAt = some t

theorem namesWrap_of_says
    (hRuns : a.Runs)
    {action : Action}
    {next due count : Nat}
    {p : Policy}
    (hSays : Says a x action next p due)
    (hMarks : p.marks = before count)
    (hOther : action ≠ .wrap)
    (hOpen : action ≠ .compact) :
    NamesWrap a
      (a.bound (a.cfg.config.max - count) due) x := by
  have hWrapped : p.wrappedAt = none :=
    congrArg Marks.wrappedAt hMarks
  have hCompacted : p.compactedAt = none :=
    congrArg Marks.compactedAt hMarks
  have hCounted : p.count = count :=
    congrArg Marks.count hMarks
  constructor
  · rw [hSays.action]
    exact hOther
  · rw [hSays.action]
    exact hOpen
  · rw [hSays.wrapsAt hWrapped, hCounted]
    exact Around.wrapsAt_eq hRuns.wraps count due
  · intro hCompacts
    rw [hSays.compactsAt,
      Around.compactsAt_of_unwrapped hRuns.wraps hCompacts
        hWrapped hCompacted, hCounted]

theorem namesCompaction_of_says
    (hCompacts : Compacts a)
    {action : Action}
    {next due at' after : Nat}
    {p : Policy}
    (hSays : Says a x action next p due)
    (hWrapped : p.marks.wrappedAt = some at')
    (hCompacted : p.marks.compactedAt = none)
    (hCounted : p.marks.afterCount = after)
    (hOther : action ≠ .compact) :
    NamesCompaction a
      (a.bound (a.cfg.config.afterMax - after) due) x := by
  constructor
  · rw [hSays.action]
    exact hOther
  · rw [hSays.compactsAt, ← hCounted]
    exact
      Around.compactsAt_of_wrapped hCompacts hWrapped
        hCompacted due

/- Keepalives to go before the wrap, at a due point. -/
def ToWrap
    (a : Around)
    (left : Nat)
    (x : Alone) : Prop :=
  ∃ last count,
    DueBefore a x last count ∧
      left = a.cfg.config.max - count

theorem toWrap_step
    (hRuns : a.Runs)
    (left : Nat)
    (x : Alone)
    (hTo : ToWrap a (left + 1) x)
    (hInside :
      a.cfg.config.windows.contains x.now = true) :
    ∃ y z,
      x.next a = some y ∧ y.next a = some z ∧
        ToWrap a left z ∧ z.now = x.now + a.step ∧
          NamesWrap a (a.bound left z.now) x ∧
            NamesWrap a (a.bound left z.now) y := by
  rcases hTo with ⟨last, count, hDue, hLeft⟩
  rcases hDue.keepalive hRuns.on (by omega) hInside with
    ⟨hSays, hLeaves⟩
  rcases keepalive_waits hRuns hDue.rests hDue.due
      (fun p hMarks => afterWrapEnds_of_before hMarks _) rfl
      hSays hLeaves with
    ⟨y, z, last', hY, hZ, hRests, hLate, hWarm, hAt, hMarks,
      hMarksY, hSaysY⟩
  have hLeft' : left = a.cfg.config.max - (count + 1) := by
    omega
  refine
    ⟨y, z, hY, hZ,
      ⟨last', count + 1, ⟨hRests, hMarks, hLate, hWarm⟩,
        hLeft'⟩, hAt, ?_, ?_⟩
  · rw [hLeft', hAt]
    exact
      namesWrap_of_says hRuns hSays hLeaves.marks (by simp)
        (by simp)
  · rw [hLeft']
    exact
      namesWrap_of_says hRuns hSaysY hMarksY (by simp)
        (by simp)

/- Keepalives to go before the compaction, at a due point. -/
def ToCompaction
    (a : Around)
    (left : Nat)
    (x : Alone) : Prop :=
  ∃ last count at' after focus,
    DueAfter a x last count at' after focus ∧
      left = a.cfg.config.afterMax - after

theorem toCompaction_step
    (hRuns : a.Runs)
    (hCompacts : Compacts a)
    (left : Nat)
    (x : Alone)
    (hTo : ToCompaction a (left + 1) x)
    (hInside :
      a.cfg.config.windows.contains x.now = true) :
    ∃ y z,
      x.next a = some y ∧ y.next a = some z ∧
        ToCompaction a left z ∧ z.now = x.now + a.step ∧
          NamesCompaction a (a.bound left z.now) x ∧
            NamesCompaction a (a.bound left z.now) y := by
  rcases hTo with
    ⟨last, count, at', after, focus, hDue, hLeft⟩
  rcases hDue.keepalive hRuns.on hCompacts (by omega)
      hInside with
    ⟨hSays, hLeaves⟩
  rcases keepalive_waits hRuns hDue.rests hDue.due
      (fun p hMarks => hCompacts.more hMarks) rfl hSays
      hLeaves with
    ⟨y, z, last', hY, hZ, hRests, hLate, hWarm, hAt, hMarks,
      hMarksY, hSaysY⟩
  have hLeft' :
      left = a.cfg.config.afterMax - (after + 1) := by
    omega
  refine
    ⟨y, z, hY, hZ,
      ⟨last', count, at', after + 1, focus,
        ⟨hRests, hMarks, hLate, hWarm⟩, hLeft'⟩,
      hAt, ?_, ?_⟩
  · rw [hLeft', hAt]
    exact
      namesCompaction_of_says hCompacts hSays
        (congrArg Marks.wrappedAt hLeaves.marks)
        (congrArg Marks.compactedAt hLeaves.marks)
        (congrArg Marks.afterCount hLeaves.marks) (by simp)
  · rw [hLeft']
    exact
      namesCompaction_of_says hCompacts hSaysY
        (congrArg Marks.wrappedAt hMarksY)
        (congrArg Marks.compactedAt hMarksY)
        (congrArg Marks.afterCount hMarksY) (by simp)

/- The wrap's check, and what it leads to. -/
theorem toWrap_ends
    (hRuns : a.Runs)
    {rest : Nat}
    (hTo : ToWrap a rest x)
    (hBound :
      rest = 0 ∨
        a.cfg.config.windows.contains x.now = false) :
    (x.check a).decision.action = .wrap ∧
      (Compacts a →
        ∀ focus, a.focus = some focus →
          NamesCompaction a (a.compaction x.now) x ∧
            ∃ y,
              x.next a = some y ∧
                y.now = x.now + a.step ∧
                ToCompaction a a.cfg.config.afterMax y) := by
  have hBounds := a.step_bounds
  simp only [ttlSecs, marginRange] at hBounds
  rcases hTo with ⟨last, count, hDue, hLeft⟩
  have hOver :
      a.cfg.config.max ≤ count ∨
        a.cfg.config.windows.contains x.now = false := by
    rcases hBound with hZero | hOutside
    · exact Or.inl (by omega)
    · exact Or.inr hOutside
  rcases hDue.wrap hRuns.on hRuns.wraps hOver with
    ⟨hAction, hLeaves, hSays⟩
  refine ⟨hAction, ?_⟩
  intro hCompacts focus hFocus
  have hSays := hSays hCompacts.most
  refine ⟨?_, ?_⟩
  · exact
      namesCompaction_of_says hCompacts hSays
        (congrArg Marks.wrappedAt hLeaves.marks)
        (congrArg Marks.compactedAt hLeaves.marks)
        (congrArg Marks.afterCount hLeaves.marks) (by simp)
  · have hBefore : last.atEpoch < x.now := by
      have hLate := hDue.due
      simp only [point] at hLate
      omega
    rcases rests_next hDue.rests hRuns.lands hLeaves rfl
        hSays.nextAt (by omega)
        (Or.inr
          ⟨by rw [hAction]; simp, hBefore,
            fun t hSome => by cases hSome⟩) with
      ⟨y, last', hY, hNow, hRests, hLast, hMarks⟩
    rw [if_neg (by rw [hAction]; simp)] at hLast
    have hReported :
        (a.reported (x.check a)).marks =
          wrapped count x.now 0 focus := by
      have hLeft := hLeaves.marks
      simp only [Policy.marks, before, Marks.mk.injEq]
        at hLeft
      unfold Around.reported
      rw [if_pos hAction, hFocus]
      simp only [Policy.marks, wrapped, Option.some_or,
        Marks.mk.injEq]
      exact
        ⟨hLeft.1, hLeft.2.1, hLeft.2.2.1, hLeft.2.2.2.1,
          trivial, hLeft.2.2.2.2.2⟩
    refine
      ⟨y, hY, hNow, last', count, x.now, 0, focus,
        ⟨hRests, hMarks.trans hReported, ?_, ?_⟩, by simp⟩
    · simp only [point, hLast, hNow]
      exact Nat.le_refl _
    · rw [hNow, hLast]
      simp only [ttlSecs, gateMarginSecs]
      omega

end Alone

end Keepwarm

------------------------------------------------------------
-- From A Reset
------------------------------------------------------------

namespace Keepwarm

namespace Alone

variable {a : Around} {x : Alone} {last : UsageEntry}

/-
  A check just after a reset, warm, of a request on the hour
  tier: it reads a large context, and finds no window of the
  operator's. A wake sent before the reset has landed warm,
  so none is pending and none stops the policy.
-/
structure Starts
    (a : Around)
    (x : Alone)
    (last : UsageEntry) : Prop where
  reset : ∃ p at', x.state.policy = Policy.reset p at'
  unpinged : (x.poll a).state.pingedAt = none
  running : (x.poll a).state.policy.stopped = none
  big : bigTokens ≤ (x.poll a).state.ctx
  verdict :
    ∀ r, (x.poll a).state.lastPing = some r →
      r.at' ≤ last.atEpoch
  seen : x.state.lastSeenAt ≤ last.atEpoch
  tail : x.reading.usageTail.getLast? = some last
  latest :
    ∀ e ∈ x.reading.usageTail, e.atEpoch ≤ last.atEpoch
  asked : 0 < last.atEpoch
  hour : last.ttlSecs = ttlSecs
  closed : operatorWindow x.arm ≤ x.now
  warm : x.now < last.atEpoch + (ttlSecs - gateMarginSecs)

/- The turn comes at a check, and each before names its time. -/
structure Foretold
    (a : Around)
    (x : Alone)
    (turn : Action)
    (estimate : Decision → Option Nat)
    (n : Nat) : Prop where
  exact :
    ∃ y,
      after a n x = some y ∧
        (y.check a).decision.action = turn ∧
          ∀ k < n, ∃ z,
            after a k x = some z ∧
              (z.check a).decision.action ≠ turn ∧
                estimate (z.check a).decision = some y.now

theorem lastSeenAt_of_seen
    {s : State}
    {reading : Reading}
    (hTail : reading.usageTail.getLast? = some last)
    (hLatest :
      ∀ e ∈ reading.usageTail, e.atEpoch ≤ last.atEpoch)
    (hSeen : s.lastSeenAt ≤ last.atEpoch)
    (arm : Option ArmFile)
    (now : Nat) :
    (policyPoll s reading arm now).state.lastSeenAt =
      last.atEpoch := by
  cases hBaselined : s.baselined with
  | true =>
      rw [policyPoll_lastSeenAt hBaselined]
      by_cases hNew : s.lastSeenAt < last.atEpoch
      · rw [getLast?_newEntries hTail hNew]
        rfl
      · have hNil : Poll.newEntries s reading = [] := by
          unfold Poll.newEntries
          rw [List.filter_eq_nil_iff]
          intro e hMem
          have hOld := hLatest e hMem
          simp only [gt_iff_lt, decide_eq_true_eq]
          omega
        rw [hNil]
        exact Nat.le_antisymm hSeen (Nat.not_lt.mp hNew)
  | false =>
      rcases policyPoll_state s reading arm now with
        ⟨_, hState⟩
      rcases operatorArm_state s arm with ⟨_, hRead⟩
      rw [hState]
      dsimp only
      rw [State.stepWith_of_not_baselined
        (by rw [hRead]; exact hBaselined)]
      rcases Poll.baseline_state
        (Poll.readArm (operatorArm s arm).1
          (operatorArm s arm).2 now) reading now with
        ⟨_, hBaseline, _⟩
      rw [hBaseline]
      simp [Reading.lastAt, hTail]

/- The reading's own count is the context, where it is one. -/
theorem ctx_of_tokensUsed
    {reading : Reading}
    (hCounted : 0 < reading.tokensUsed)
    (s : State)
    (arm : Option ArmFile)
    (now : Nat) :
    (policyPoll s reading arm now).state.ctx =
      reading.tokensUsed := by
  rcases policyPoll_state s reading arm now with ⟨_, hState⟩
  rw [hState]
  dsimp only
  cases hBaselined : (operatorArm s arm).1.baselined with
  | true =>
      rw [State.stepWith_of_baselined hBaselined,
        (Poll.finish_cases _ now).ctx]
      unfold Poll.scoreEntries
      dsimp only
      rw [if_pos hCounted]
  | false =>
      rw [State.stepWith_of_not_baselined hBaselined]
      rcases Poll.baseline_state
        (Poll.readArm (operatorArm s arm).1
          (operatorArm s arm).2 now) reading now with
        ⟨_, hBaseline, _⟩
      rw [hBaseline]

theorem Starts.rests
    (hStarts : Starts a x last) :
    Rests a x last ∧
      (x.poll a).state.policy.marks = before 0 := by
  refine ⟨?_, ?_⟩
  · exact
      { unpinged := hStarts.unpinged
        running := hStarts.running
        big := hStarts.big
        seen :=
          lastSeenAt_of_seen
            (s := recordCheck x.state a.cfg.config a.gate)
            hStarts.tail hStarts.latest hStarts.seen x.arm
            x.now
        verdict := hStarts.verdict
        same := fun hCounted =>
          (ctx_of_tokensUsed hCounted _ x.arm x.now).symm
        tail := hStarts.tail
        latest := hStarts.latest
        asked := hStarts.asked
        hour := hStarts.hour
        closed := hStarts.closed }
  · rcases hStarts.reset with ⟨p, at', hReset⟩
    have hRunning := hStarts.running
    rcases policyPoll_policy
      (recordCheck x.state a.cfg.config a.gate) x.reading
      x.arm x.now with ⟨pending, spent, stopped, hPolicy⟩
    unfold Alone.poll at hRunning ⊢
    rw [hPolicy] at hRunning ⊢
    dsimp only at hRunning
    simp only [recordCheck, hReset, Policy.reset,
      Policy.marks, before, hRunning]

/- The first check waits, or is at the due point itself. -/
theorem Starts.toWrap
    (hRuns : a.Runs)
    (hStarts : Starts a x last) :
    ∃ n y,
      after a n x = some y ∧
        ToWrap a a.cfg.config.max y ∧
          ∀ k < n, ∃ z,
            after a k x = some z ∧
              NamesWrap a
                (a.bound a.cfg.config.max y.now) z := by
  rcases hStarts.rests with ⟨hRests, hMarks⟩
  by_cases hEarly : x.now < (point a last).due
  · rcases hRests.waits hRuns.on
        (afterWrapEnds_of_before hMarks _) hEarly with
      ⟨hSays, hLeaves⟩
    rcases rests_next hRests hRuns.lands hLeaves
        (by rw [hMarks]; rfl) hSays.nextAt (by omega)
        (Or.inl ⟨hSays.action, rfl⟩) with
      ⟨y, last', hY, hNow, hRestsY, hLast, hMarksY⟩
    rw [if_pos hSays.action] at hLast
    have hReported :
        (a.reported (x.check a)).marks = before 0 := by
      unfold Around.reported
      rw [if_neg (by rw [hSays.action]; simp),
        hLeaves.marks]
      exact hMarks
    have hBounds := a.step_bounds
    simp only [ttlSecs, marginRange] at hBounds
    refine
      ⟨1, y, after_succ hY 0,
        ⟨last', 0, ⟨hRestsY, hMarksY.trans hReported, ?_, ?_⟩,
          rfl⟩, ?_⟩
    · rw [hNow]
      simp only [point, hLast]
      exact Nat.le_refl _
    · rw [hNow]
      simp only [point, hLast, ttlSecs, gateMarginSecs]
      omega
    · intro k hK
      have hZero : k = 0 := by omega
      subst hZero
      refine ⟨x, rfl, ?_⟩
      rw [hNow]
      exact
        namesWrap_of_says hRuns hSays hMarks (by simp)
          (by simp)
  · exact
      ⟨0, x, rfl,
        ⟨last, 0,
          ⟨hRests, hMarks, Nat.not_lt.mp hEarly,
            hStarts.warm⟩, rfl⟩,
        fun k hK => absurd hK (Nat.not_lt_zero k)⟩

/- A request of a large context on the hour tier. -/
def warmTurn
    (ctx now : Nat) : UsageEntry :=
  { atEpoch := now
    model := ""
    input := 0
    cacheRead := ctx
    cacheCreation := 0
    output := 1
    tier := "1h" }

/- One keepalive, the wrap, one more and the compaction. -/
def compactingAround : Around where
  cfg :=
    { config :=
        { defaultConfig with
          max := 1
          afterWrap := .compact
          afterMax := 1
          sessionSkills := .listed ["wrap"] }
      least := by decide
      most := by decide }
  gate := .off
  site := plainSite
  turn := warmTurn
  outcome := "the reply is in the transcript"
  focus := some "keep the task list"

/- A minute after the request the operator's prompt made. -/
def resetCheck : Alone where
  state := { policy := Policy.reset {} 10000 }
  arm := none
  reading := warmReading 10000
  now := 10060

end Alone

end Keepwarm
