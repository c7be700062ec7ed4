import AgentWays.Keepwarm.Config
import AgentWays.Keepwarm.Step

/-
  The keepalive policy: one judgment of an idle session.

  `policyStep` is cut where the source returns early. The
  plain judgment stands in where the policy does not run;
  else the verdict on the last wake is read, an armed window
  is the operator's word, and a due point is a keepalive, a
  wrap, a keepalive after the wrap, a compaction or a stop.

  Key definitions include:
    * `Keepwarm.Decision`
    * `Keepwarm.duePoint`
    * `Keepwarm.afterWrapEnds`
    * `Keepwarm.judgeVerdict`
    * `Keepwarm.Check.judge`
    * `Keepwarm.policyStep`
-/

------------------------------------------------------------
-- The Operator's Words
------------------------------------------------------------

namespace Keepwarm

/- How long a wake may go without its turn. -/
def verdictSecs : Nat := ttlSecs - pingAfterSecs

/- When to ask again while the policy does not run. -/
def plainEverySecs : Nat := 60

namespace Policy

/- Where the count runs from. -/
def since
    (p : Policy) : Option Nat :=
  p.operatorAt.or p.stretchFrom

/- The operator prompted: the count starts again. -/
def reset
    (p : Policy)
    (now : Nat) : Policy :=
  { operatorAt := some now
    gate := p.gate }

/- `attend keepwarm off`. -/
def stopByOperator
    (p : Policy) : Policy :=
  { p with stopped := some "attend keepwarm off" }

/- `attend keepwarm on`. -/
def clearStop
    (p : Policy) : Policy :=
  { p with stopped := none }

end Policy

end Keepwarm

------------------------------------------------------------
-- Due Points And Estimates
------------------------------------------------------------

namespace Keepwarm

/- Why a stretch has no due point. -/
inductive Idle where
| noRequest
| fiveMinuteTier
| smallContext
deriving DecidableEq

def Idle.reason : Idle → String
| .noRequest => "no request yet in this session"
| .fiveMinuteTier =>
    "the session is on the five-minute cache tier"
| .smallContext =>
    "the context is under 50k tokens, " ++
      "where a cold re-write is cheap"

def Idle.short : Idle → String
| .noRequest => "no request yet"
| .fiveMinuteTier => "5m tier"
| .smallContext => "under 50k"

/- A due point, its stretch's TTL and its last request. -/
structure DuePoint where
  due : Nat
  ttl : Nat
  lastAt : Nat
deriving DecidableEq

def duePoint
    (s : State)
    (reading : Reading)
    (cfg : Config) : Except Idle DuePoint :=
  match reading.usageTail.getLast? with
  | none => .error .noRequest
  | some last =>
      if last.atEpoch = 0 then .error .noRequest
      else if last.ttlSecs < ttlSecs then
        .error .fiveMinuteTier
      else if s.ctx < bigTokens then .error .smallContext
      else
        .ok
          { due := last.atEpoch +
              (last.ttlSecs - cfg.marginSecs)
            ttl := last.ttlSecs
            lastAt := last.atEpoch }

/-
  The first due point past `left` more keepalives or outside
  the windows, `step` seconds apart from `t` on.
-/
def boundAt
    (windows : Windows)
    (step : Nat) : Nat → Nat → Nat
| 0, t => t
| left + 1, t =>
    if windows.contains t then
      boundAt windows step left (t + step)
    else t

/- When the wrap goes out if nothing else happens. -/
def wrapsAt
    (cfg : Config)
    (count due ttl : Nat) : Option Nat :=
  if cfg.noWrap.isSome then none
  else
    some
      (boundAt cfg.windows
        (Nat.max (ttl - cfg.marginSecs) 60)
        (cfg.max - count) due)

/- When the compaction after the wrap goes out. -/
def compactsAt
    (cfg : Config)
    (p : Policy)
    (due ttl : Nat) : Option Nat :=
  if cfg.afterWrap ≠ .compact ∨ cfg.afterMax = 0 ∨
      p.compactedAt.isSome then none
  else
    let step := Nat.max (ttl - cfg.marginSecs) 60
    match p.wrappedAt with
    | some _ =>
        some
          (boundAt cfg.windows step
            (cfg.afterMax - p.afterCount) due)
    | none =>
        -- The first keepalive after the wrap is a step on.
        (wrapsAt cfg p.count due ttl).map
          (fun t =>
            boundAt cfg.windows step cfg.afterMax
              (t + step))

def noun
    (n : Nat) : String :=
  if n = 1 then "keepalive" else "keepalives"

def keepalives
    (n : Nat) : String :=
  toString n ++ " " ++ noun n

/-
  Why nothing more follows the wrap, or nothing while
  keepalives or the compaction are still to come, as before
  the wrap.
-/
def afterWrapEnds
    (cfg : Config)
    (p : Policy) : Option String :=
  match p.wrappedAt with
  | none => none
  | some at' =>
      let wrapped := "wrapped at " ++ cfg.windows.hm at'
      match p.compactedAt with
      | some c =>
          match p.compactFailed with
          | some why =>
              some
                (wrapped ++ "; the compaction at " ++
                  cfg.windows.hm c ++ " failed: " ++ why)
          | none =>
              some
                (wrapped ++ " and compacted at " ++
                  cfg.windows.hm c)
      | none =>
          match p.stopped with
          | some why =>
              some (wrapped ++ ", then stopped: " ++ why)
          | none =>
              if cfg.afterMax = 0 then some wrapped
              else if p.afterCount < cfg.afterMax ∨
                  (cfg.afterWrap = .compact ∧
                    p.compactFocus.isSome) then
                none
              else
                some
                  (wrapped ++ " and " ++
                    keepalives p.afterCount ++
                    " after it" ++
                    (if cfg.afterWrap = .compact then
                      "; the wrap left no reply to compact with"
                    else ""))

end Keepwarm

------------------------------------------------------------
-- Decisions
------------------------------------------------------------

namespace Keepwarm

inductive Action where
| none
| keepalive
| wrap
| compact
deriving DecidableEq

/- Where the policy stands; `off` is where it does not run. -/
inductive Standing where
| running
| wrapped
| compacted
| stopped
| off
deriving DecidableEq

/- What `attend keepwarm check --policy --json` prints. -/
structure Decision where
  action : Action
  text : Option String
  nextAt : Option Nat
  count : Nat
  max : Nat
  wrapsAt : Option Nat
  reason : String
  policy : Bool
  state : Standing
  wrapsAtHm : Option String
  wrappedAtHm : Option String
  afterCount : Nat
  afterMax : Nat
  compactsAt : Option Nat
  compactsAtHm : Option String
  compactedAtHm : Option String
  wrap : Option WrapRoute
  retry : Bool
  idle : Option String
deriving DecidableEq

namespace Decision

def new
    (cfg : Config)
    (p : Policy)
    (policy : Bool)
    (state : Standing)
    (reason : String) : Decision :=
  { action := .none
    text := none
    nextAt := none
    count := p.count
    max := cfg.max
    wrapsAt := none
    reason := reason
    policy := policy
    state := state
    wrapsAtHm := none
    wrappedAtHm := p.wrappedAt.map cfg.windows.hm
    afterCount := p.afterCount
    afterMax := cfg.afterMax
    compactsAt := none
    compactsAtHm := none
    compactedAtHm := p.compactedAt.map cfg.windows.hm
    wrap := none
    retry := false
    idle := none }

/- The wrap's and the compaction's estimates. -/
def estimate
    (d : Decision)
    (cfg : Config)
    (p : Policy)
    (due ttl : Nat) : Decision :=
  let wraps :=
    if p.wrappedAt.isNone then
      { d with
        wrapsAt := Keepwarm.wrapsAt cfg p.count due ttl
        wrapsAtHm :=
          (Keepwarm.wrapsAt cfg p.count due ttl).map
            cfg.windows.hm }
    else d
  { wraps with
    compactsAt := Keepwarm.compactsAt cfg p due ttl
    compactsAtHm :=
      (Keepwarm.compactsAt cfg p due ttl).map
        cfg.windows.hm }

end Decision

/- The wrap turn's last sentence. -/
def afterWrapLine
    (cfg : Config) : String :=
  match cfg.afterMax, cfg.afterWrap with
  | 0, .lapse =>
      "Nothing keeps the prompt cache warm after this turn."
  | 0, .compact =>
      "Once you answer, the mod compacts the conversation " ++
        "with the focus of your closing /compact line."
  | m, .lapse =>
      "The mod keeps the prompt cache warm for up to " ++
        toString m ++ " more " ++ noun m ++
        ", then lets it lapse."
  | m, .compact =>
      "The mod keeps the prompt cache warm for up to " ++
        toString m ++ " more " ++ noun m ++
        ", then compacts the conversation with the focus " ++
        "of your closing /compact line."

/- The wrap turn's text. -/
def wrapText
    (cfg : Config)
    (site : Site)
    (p : Policy)
    (r : WrapRoute)
    (atBound : Bool)
    (now : Nat) : String :=
  let since :=
    match p.since with
    | none => "a long idle stretch"
    | some t =>
        fmtDuration (now - t) ++
          " since the operator's last prompt"
  let first :=
    if atBound then
      "wrap: " ++ since ++ " and " ++ toString p.count ++
        " keepalives, the most this session allows."
    else if cfg.windows.list.isEmpty then
      "wrap: " ++ since ++
        ", and no keepalive hours are set."
    else
      "wrap: " ++ since ++ ", and the keepalive hours (" ++
        cfg.windows.describe ++ ") have ended."
  let body :=
    "The operator is away. " ++ cfg.wrapSkill.ask ++
      ": square the task list and write the continuation " ++
      "prompt. Ask no questions, land nothing and start no " ++
      "new work. " ++ afterWrapLine cfg
  let dest :=
    match cfg.wrap with
    | .file =>
        " The mod saves your final reply to " ++ r.file ++
          "."
    | .send =>
        if r.recipient = site.operator then
          " The mod sends your final reply to your " ++
            "operator, " ++ r.recipient ++ ", over attend."
        else if RustText.startsWith r.recipient "#" then
          " The mod posts your final reply in " ++
            r.recipient ++ " over attend, where another " ++
            "session may take up the work."
        else
          " The mod sends your final reply to " ++
            r.recipient ++ " over attend as a handoff."
    | .transcript => ""
    | .off => ""
  first ++ "\n" ++ body ++ dest

end Keepwarm

------------------------------------------------------------
-- Due Turns
------------------------------------------------------------

namespace Keepwarm

/- One judgment: the state and outcome left, and the word. -/
structure Check where
  state : State
  out : Outcome
  decision : Decision
deriving DecidableEq

namespace Check

/- A stop until the operator's next prompt. -/
def stop
    (s : State)
    (why : String) : State :=
  { s with policy.stopped := some why }

def stoppedReason
    (why : String) : String :=
  "stopped: " ++ why ++
    "; nothing more until the operator's next prompt"

/- A keepalive's decision, before and after the wrap. -/
def keepaliveDecision
    (cfg : Config)
    (s : State)
    (d : DuePoint)
    (now : Nat)
    (standing : Standing)
    (reason : String) : Decision :=
  { Decision.new cfg s.policy true standing reason with
    action := .keepalive
    text := some (wakeLine (now - d.lastAt) d.ttl s.ctx)
    nextAt := some (now + verdictSecs + 1) }.estimate cfg
      s.policy (now + (d.ttl - cfg.marginSecs)) d.ttl

/-
  A due point after the wrap: a keepalive while the count
  after it allows and the windows hold, then the compaction
  with the wrap's focus, else a stop.
-/
def afterWrapDue
    (q : Poll)
    (cfg : Config)
    (d : DuePoint)
    (now : Nat) : Check :=
  let inside := cfg.windows.contains now
  if q.state.policy.afterCount < cfg.afterMax ∧ inside then
    let s : State :=
      { q.state with
        policy :=
          { q.state.policy with
            afterCount := q.state.policy.afterCount + 1
            pending := true }
        pingedAt := some now }
    { state := s
      out := q.out
      decision :=
        keepaliveDecision cfg s d now .wrapped
          ("keepalive " ++ toString s.policy.afterCount ++
            " of " ++ toString cfg.afterMax ++
            " after the wrap") }
  else
    match cfg.afterWrap, q.state.policy.compactFocus with
    | .compact, some focus =>
        let s : State :=
          { q.state with policy.compactedAt := some now }
        let why :=
          if inside then
            keepalives s.policy.afterCount ++
              " after the wrap"
          else "the keepalive hours have ended"
        { state := s
          out := q.out
          decision :=
            { Decision.new cfg s.policy true .compacted
                ("compacting with the wrap's focus: " ++
                  why) with
              action := .compact
              text := some focus } }
    | after, _ =>
        let s :=
          stop q.state
            (if after = .compact then
              "the wrap left no reply to compact with"
            else "the keepalive hours have ended")
        { state := s
          out := q.out
          decision :=
            Decision.new cfg s.policy true .wrapped
              ((afterWrapEnds cfg s.policy).getD "" ++
                "; nothing more until the operator's next prompt") }

/-
  A due point before the wrap: a counted keepalive, or past
  the count or outside the windows the wrap, or a stop where
  no wrap follows.
-/
def dueTurn
    (q : Poll)
    (cfg : Config)
    (site : Site)
    (d : DuePoint)
    (now : Nat) : Check :=
  let s : State :=
    if q.state.policy.since.isNone then
      { q.state with policy.stretchFrom := some d.lastAt }
    else q.state
  let atBound := decide (s.policy.count ≥ cfg.max)
  if ¬ atBound ∧ cfg.windows.contains now then
    let s : State :=
      { s with
        policy :=
          { s.policy with
            count := s.policy.count + 1
            pending := true }
        pingedAt := some now }
    { state := s
      out := q.out
      decision :=
        keepaliveDecision cfg s d now .running
          ("keepalive " ++ toString s.policy.count ++
            " of " ++ toString cfg.max) }
  else
    match cfg.noWrap with
    | some why =>
        let s :=
          stop s
            (if atBound then
              toString s.policy.count ++
                " keepalives, the most this session " ++
                "allows, and " ++ why
            else
              "the keepalive hours have ended, and " ++ why)
        { state := s
          out := q.out
          decision :=
            Decision.new cfg s.policy true .stopped
              (stoppedReason
                (s.policy.stopped.getD "")) }
    | none =>
        let s : State :=
          { s with policy.wrappedAt := some now }
        let r := route cfg site now
        let word : Decision :=
          { Decision.new cfg s.policy true .wrapped
              (if atBound then "the count is spent"
              else "outside the keepalive hours") with
            action := .wrap
            text :=
              some
                (wrapText cfg site s.policy r atBound now) }
        -- The wrap's turn restarts the clock.
        let next := now + (d.ttl - cfg.marginSecs)
        let asked :=
          if cfg.afterMax > 0 then
            { word with nextAt := some next }.estimate cfg
              s.policy next d.ttl
          else word
        { state := s
          out := q.out
          decision := { asked with wrap := some r } }

end Check

end Keepwarm

------------------------------------------------------------
-- The Judgment
------------------------------------------------------------

namespace Keepwarm

namespace Check

/- A due point: too late, after the wrap, or before it. -/
def atDue
    (q : Poll)
    (reading : Reading)
    (cfg : Config)
    (site : Site)
    (d : DuePoint)
    (now : Nat) : Check :=
  let q : Poll := { q with out.changed := true }
  if cacheLapsed (some reading) now then
    let s :=
      stop q.state
        ("the cache had lapsed at the due point " ++
          cfg.windows.hm d.due ++
          " (the host may have slept)")
    { state := s
      out := q.out
      decision :=
        Decision.new cfg s.policy true
          (if s.policy.wrappedAt.isSome then .wrapped
          else .stopped)
          (stoppedReason (s.policy.stopped.getD "")) }
  else if q.state.policy.wrappedAt.isSome then
    afterWrapDue q cfg d now
  else dueTurn q cfg site d now

/- A session with no window open, once nothing stops it. -/
def judgeIdle
    (q : Poll)
    (reading : Reading)
    (cfg : Config)
    (site : Site)
    (now : Nat) : Check :=
  let p := q.state.policy
  let after : Standing :=
    if p.wrappedAt.isSome then .wrapped else .running
  match q.state.pingedAt with
  | some t =>
      let waiting : Decision :=
        { Decision.new cfg p true after
            "waiting for the keepalive's turn" with
          nextAt := some (t + verdictSecs + 1) }
      { state := q.state
        out := q.out
        decision :=
          match duePoint q.state reading cfg with
          | .ok d =>
              waiting.estimate cfg p
                (t + (d.ttl - cfg.marginSecs)) d.ttl
          | .error _ => waiting }
  | none =>
      match duePoint q.state reading cfg with
      | .error why =>
          { state := q.state
            out := q.out
            decision :=
              { Decision.new cfg p true after why.reason with
                idle := some why.short } }
      | .ok d =>
          if now < d.due then
            { state := q.state
              out := q.out
              decision :=
                { Decision.new cfg p true after
                    ("next due at " ++
                      cfg.windows.hm d.due) with
                  nextAt := some d.due }.estimate cfg p
                    d.due d.ttl }
          else atDue q reading cfg site d now

/-
  The judgment on a stepped state: an armed window first,
  then what the wrap and the stops leave to come.
-/
def judge
    (q : Poll)
    (reading : Reading)
    (cfg : Config)
    (site : Site)
    (now : Nat) : Check :=
  let p := q.state.policy
  match q.out.observations with
  | (_, line) :: _ =>
      { state := q.state
        out := q.out
        decision :=
          { Decision.new cfg p true .running
              "an armed window (attend keepwarm on) overrides the count" with
            action := .keepalive
            text := some line
            nextAt := some (now + verdictSecs + 1) } }
  | [] =>
      if q.state.deadline > now then
        { state := q.state
          out := q.out
          decision :=
            { Decision.new cfg p true .running
                ("an armed window (attend keepwarm on) " ++
                  "overrides the count for " ++
                  fmtDuration (q.state.deadline - now)) with
              nextAt :=
                match q.state.pingedAt with
                | some t => some (t + verdictSecs + 1)
                | none =>
                    some
                      (Nat.min
                        (Nat.max
                          (q.state.lastSeenAt +
                            pingAfterSecs)
                          (now + 1))
                        q.state.deadline) } }
      else
        match afterWrapEnds cfg p with
        | some why =>
            { state := q.state
              out := q.out
              decision :=
                Decision.new cfg p true
                  (if p.compactedAt.isSome ∧
                      p.compactFailed.isNone then .compacted
                  else .wrapped)
                  (why ++
                    "; nothing more until the operator's next prompt") }
        | none =>
            match p.stopped with
            | some why =>
                { state := q.state
                  out := q.out
                  decision :=
                    Decision.new cfg p true .stopped
                      (stoppedReason why) }
            | none => judgeIdle q reading cfg site now

/- Where the policy does not run: the plain judgment. -/
def judgeOff
    (s : State)
    (reading : Reading)
    (arm : Option ArmFile)
    (cfg : Config)
    (why : String)
    (now : Nat) : Check :=
  let d := Decision.new cfg s.policy false .off why
  if !cfg.keepwarmOn then
    { state := s
      out := { changed := true }
      decision := d }
  else
    let q := s.step reading arm now
    let d : Decision :=
      { d with nextAt := some (now + plainEverySecs) }
    { state := q.state
      out := q.out
      decision :=
        match q.out.observations with
        | (_, line) :: _ =>
            { d with
              action := .keepalive
              text := some line
              reason := why ++ "; an armed window's wake" }
        | [] => d }

end Check

/-
  The state and the arm file as the policy reads them: the
  sensor's own arm is no word of the operator's, so it is no
  window, and the cursor forgets it the same way.
-/
def operatorArm
    (s : State)
    (arm : Option ArmFile) : State × Option ArmFile :=
  match arm with
  | some a =>
      if a.auto then
        if s.deadline = a.deadline then
          ({ s with deadline := 0 }, none)
        else (s, none)
      else (s, arm)
  | none => (s, none)

/-
  The policy's marks once a wake's verdict came in or its
  margin ran out, `before` and `after` the step. A first
  step only baselines.
-/
def judgeVerdict
    (before after : State) : State :=
  if !before.baselined then
    { after with policy.pending := false }
  else if before.pingedAt.isSome ∧ after.pingedAt.isNone then
    let landed := decide (after.lastPing ≠ before.lastPing)
    let warm :=
      landed && after.lastPing.any PingRecord.warm
    let spent :=
      if after.policy.pending ∧ landed then
        after.policy.spentUsd +
          (after.lastPing.bind PingRecord.usd).getD 0.0
      else after.policy.spentUsd
    { after with
      policy :=
        { after.policy with
          spentUsd := spent
          pending := false
          stopped :=
            if warm then after.policy.stopped
            else
              some
                (after.stopped.getD
                  "the wake's turn read a cold cache") } }
  else after

/- The state with the check's own readings recorded. -/
def recordCheck
    (s : State)
    (cfg : Config)
    (gate : Gate) : State :=
  { s with
    policy :=
      { s.policy with
        gate := some gate.asStr
        skillSeen := cfg.skillSeen } }

/- The stepped state that the policy judges. -/
def policyPoll
    (s : State)
    (reading : Reading)
    (arm : Option ArmFile)
    (now : Nat) : Poll :=
  let read := operatorArm s arm
  let q := read.1.stepWith reading read.2 now false
  { q with state := judgeVerdict read.1 q.state }

/- One judgment of the policy. -/
def policyStep
    (s : State)
    (reading : Reading)
    (arm : Option ArmFile)
    (cfg : Config)
    (gate : Gate)
    (site : Site)
    (now : Nat) : Check :=
  let s := recordCheck s cfg gate
  match cfg.whyOff gate with
  | some why =>
      Check.judgeOff s reading arm cfg why now
  | none =>
      Check.judge (policyPoll s reading arm now) reading cfg
        site now

end Keepwarm
