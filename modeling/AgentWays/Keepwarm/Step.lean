import AgentWays.Keepwarm.Basic

/-
  One poll of the keepwarm sensor, and the settling of what
  it decided.

  `State.stepWith` is cut at its paragraphs: the arm file is
  read, a first poll baselines, the new usage entries are
  scored in order, the window's end and a silent wake are
  judged, and last a due wake fires. Each part takes and
  returns the state with the outcome written so far.

  Key definitions include:
    * `Keepwarm.Poll`
    * `Keepwarm.Poll.scoreEntry`
    * `Keepwarm.State.stepWith`
    * `Keepwarm.State.step`
    * `Keepwarm.settleArm`
-/

------------------------------------------------------------
-- The Parts Of A Poll
------------------------------------------------------------

namespace Keepwarm

/- A poll in progress: the state and what it decided. -/
structure Poll where
  state : State
  out : Outcome
deriving DecidableEq

/- The `keepwarm:` wake line. -/
def wakeLine
    (idle ttl ctx : Nat) : String :=
  "keepwarm: " ++ fmtDuration idle ++
    " idle, the prompt cache lapses in " ++
    fmtDuration (ttl - idle) ++ " on " ++ fmtTok ctx ++
    " tokens. Reply with one word and no tools."

namespace Poll

def log
    (p : Poll)
    (line : String) : Poll :=
  { p with out.logs := p.out.logs ++ [line] }

def disarm
    (p : Poll)
    (why : Option String) : Poll :=
  { state :=
      { p.state with
        deadline := 0
        pingedAt := none
        stopped := why }
    out :=
      { p.out with
        armWrite := some 0
        changed := true } }

/-
  The arm file is the operator's word. A fresh deadline
  clears a stop; a cleared file disarms, and no wake is
  pending any more.
-/
def readArm
    (s : State)
    (arm : Option ArmFile)
    (now : Nat) : Poll :=
  let fileDeadline := armDeadline arm
  if fileDeadline ≠ s.deadline then
    { state :=
        if fileDeadline > now then
          { s with
            stopped := none
            deadline := fileDeadline }
        else
          { s with
            pingedAt := none
            stopped := none
            deadline := fileDeadline }
      out := { changed := true } }
  else
    { state := s, out := {} }

/- Whether a request landed at or after a recorded wake. -/
def answered
    (pingedAt : Option Nat)
    (lastSeenAt : Nat) : Bool :=
  match pingedAt with
  | some pinged => lastSeenAt ≥ pinged
  | none => false

/-
  A first poll takes the transcript as it is. A wake whose
  turn has since landed is over, its verdict lost.
-/
def baseline
    (p : Poll)
    (reading : Reading)
    (now : Nat) : Poll :=
  let s : State :=
    { p.state with
      baselined := true
      lastSeenAt := reading.lastAt
      ctx := reading.tokensUsed
      model := reading.model }
  let q : Poll :=
    if answered s.pingedAt s.lastSeenAt then
      { state := { s with pingedAt := none }
        out := { p.out with changed := true } }
    else { state := s, out := p.out }
  q.log
    ("baseline: " ++ fmtTok s.ctx ++
      " tokens, last request " ++
      fmtDuration (now - s.lastSeenAt) ++ " ago, " ++
      (if s.deadline > now then
        "armed for " ++ fmtDuration (s.deadline - now)
      else "off"))

end Poll

end Keepwarm

------------------------------------------------------------
-- Scoring Usage Entries
------------------------------------------------------------

namespace Keepwarm

/-
  A paid cold write rewrites the prefix: it writes half the
  prior context or more and reads under half of it.
-/
def rewrote
    (prior : Nat)
    (entry : UsageEntry) : Bool :=
  prior > missFloorTokens &&
    entry.cacheCreation ≥ prior / 2 &&
    entry.cacheRead < prior / 2

/- Whether a paid cold write arms a window from `now` on. -/
def autoArms
    (deadline now : Nat)
    (autoArm : Bool)
    (entry : UsageEntry) : Bool :=
  autoArm && entry.context ≥ bigTokens &&
    entry.atEpoch + autoWarmSecs > now &&
    deadline < entry.atEpoch + autoWarmSecs

/- What a request cost, by its model's price. -/
def requestUsd
    (price : Price)
    (entry : UsageEntry) : Float :=
  (Float.ofNat entry.cacheRead * price.read +
    Float.ofNat entry.cacheCreation * price.write1h +
    Float.ofNat entry.input * price.write1h / 2.0 +
    Float.ofNat entry.output * price.output) / 1e6

namespace Poll

/-
  A paid cold write is recorded as a miss. With `autoArm` it
  also arms a window, which runs from the write.
-/
def scoreMiss
    (p : Poll)
    (entry : UsageEntry)
    (now : Nat)
    (autoArm : Bool) : Poll :=
  if rewrote p.state.ctx entry then
    let usd :=
      (priceOf p.state.model).map (fun price =>
        Float.ofNat entry.cacheCreation * price.write1h /
          1e6)
    let line :=
      "cold write of " ++ fmtTok entry.cacheCreation ++
        " tokens paid (" ++ fmtUsd usd ++ ")"
    let until' := entry.atEpoch + autoWarmSecs
    let scored : Poll :=
      { state :=
          { p.state with
            misses := p.state.misses ++
              [⟨entry.atEpoch, entry.cacheCreation, usd⟩] }
        out := { p.out with changed := true } }
    if autoArms p.state.deadline now autoArm entry then
      let armed : Poll :=
        { state :=
            { scored.state with
              deadline := until'
              stopped := none }
          out :=
            { scored.out with
              armWrite := some until'
              autoArm := true } }
      armed.log
        (line ++ ", keeping the cache warm for " ++
          fmtDuration (until' - now) ++
          " so it is not paid again today")
    else scored.log line
  else p

/-
  The first request after a wake carries the verdict: warm
  when it read at least half the prior context from cache.
-/
def scoreVerdict
    (p : Poll)
    (entry : UsageEntry) : Poll :=
  match p.state.pingedAt with
  | none => p
  | some pinged =>
      if entry.atEpoch ≥ pinged then
        let prior := p.state.ctx
        let warm : Bool :=
          prior > 0 && entry.cacheRead ≥ prior / 2
        let usd :=
          (priceOf p.state.model).map
            (fun price => requestUsd price entry)
        let judged : Poll :=
          { state :=
              { p.state with
                lastPing :=
                  some
                    { at' := entry.atEpoch
                      read := entry.cacheRead
                      write := entry.cacheCreation
                      usd := usd
                      warm := warm }
                pingedAt := none }
            out := { p.out with changed := true } }
        if warm then
          judged.log
            ("wake read " ++ fmtTok entry.cacheRead ++
              " tokens from cache (" ++ fmtUsd usd ++ ")")
        else
          let why :=
            "the wake read " ++ fmtTok entry.cacheRead ++
              " and wrote " ++
              fmtTok entry.cacheCreation ++ " tokens (" ++
              fmtUsd usd ++
              "), the cache was already gone"
          (judged.log ("stopped: " ++ why)).disarm
            (some why)
      else p

/- One new usage entry: its model, its miss, its verdict. -/
def scoreEntry
    (now : Nat)
    (autoArm : Bool)
    (p : Poll)
    (entry : UsageEntry) : Poll :=
  let named : Poll :=
    if entry.model ≠ "" then
      { p with state.model := entry.model }
    else p
  let scored :=
    (named.scoreMiss entry now autoArm).scoreVerdict entry
  { scored with
    state :=
      { scored.state with
        ctx := entry.context
        lastSeenAt := entry.atEpoch } }

/- The usage entries newer than the last request seen. -/
def newEntries
    (s : State)
    (reading : Reading) : List UsageEntry :=
  reading.usageTail.filter
    (fun u => u.atEpoch > s.lastSeenAt)

/- Every new entry in order, then the reading's own count. -/
def scoreEntries
    (p : Poll)
    (reading : Reading)
    (now : Nat)
    (autoArm : Bool) : Poll :=
  let scored :=
    (newEntries p.state reading).foldl
      (scoreEntry now autoArm) p
  if reading.tokensUsed > 0 then
    { scored with state.ctx := reading.tokensUsed }
  else scored

end Poll

end Keepwarm

------------------------------------------------------------
-- Ends And Wakes
------------------------------------------------------------

namespace Keepwarm

namespace Poll

def endWindow
    (p : Poll)
    (now : Nat) : Poll :=
  if p.state.deadline > 0 ∧ now ≥ p.state.deadline then
    (p.log "window ended").disarm none
  else p

/-
  A wake that produced no turn inside the margin: stop
  rather than wake a session that is not listening.
-/
def judgeSilence
    (p : Poll)
    (now : Nat) : Poll :=
  match p.state.pingedAt with
  | none => p
  | some pinged =>
      if now - pinged > ttlSecs - pingAfterSecs then
        let why :=
          "the wake produced no turn within ten minutes"
        (p.log ("stopped: " ++ why)).disarm (some why)
      else p

/- The wake of an armed window, or the stop it came to. -/
def wake
    (p : Poll)
    (now : Nat) : Poll :=
  if p.state.deadline > now ∧ p.state.pingedAt = none ∧
      p.state.lastSeenAt > 0 then
    let idle := now - p.state.lastSeenAt
    if idle ≥ ttlSecs then
      let why :=
        "the cache lapsed " ++
          fmtDuration (idle - ttlSecs) ++
          " ago, before a wake could fire"
      (p.log ("stopped: " ++ why)).disarm (some why)
    else if idle ≥ pingAfterSecs ∧
        p.state.ctx ≥ bigTokens then
      { state := { p.state with pingedAt := some now }
        out :=
          { p.out with
            changed := true
            observations := p.out.observations ++
              [(3.0, wakeLine idle ttlSecs p.state.ctx)] } }
    else p
  else p

/- The parts that follow the scored entries. -/
def finish
    (p : Poll)
    (now : Nat) : Poll :=
  ((p.endWindow now).judgeSilence now).wake now

end Poll

end Keepwarm

------------------------------------------------------------
-- The Step And Its Settling
------------------------------------------------------------

namespace Keepwarm

namespace State

/-
  One poll, with the three-hour arm after a paid cold write
  only when `autoArm`.
-/
def stepWith
    (s : State)
    (reading : Reading)
    (arm : Option ArmFile)
    (now : Nat)
    (autoArm : Bool) : Poll :=
  let p := Poll.readArm s arm now
  if p.state.baselined then
    (p.scoreEntries reading now autoArm).finish now
  else p.baseline reading now

/- One poll. `arm` is the arm file as it is on disk. -/
def step
    (s : State)
    (reading : Reading)
    (arm : Option ArmFile)
    (now : Nat) : Poll :=
  s.stepWith reading arm now true

end State

/-
  The arm file a step's settling leaves. The write is made
  only while the file still says what the step started from;
  `onDisk` is the file at that moment.
-/
def settleArm
    (onDisk armBefore : Option ArmFile)
    (out : Outcome)
    (now : Nat) : Option ArmFile :=
  match out.armWrite with
  | none => onDisk
  | some deadline =>
      if armDeadline onDisk ≠ armDeadline armBefore then
        onDisk
      else
        some
          { deadline := deadline
            armedAt := now
            windowSecs := deadline - now
            auto := out.autoArm && decide (deadline > 0) }

/- The ledger a step's settling leaves. -/
def settleLedger
    (onDisk : Option Ledger)
    (state : State)
    (out : Outcome)
    (now : Nat) : Option Ledger :=
  if out.changed then some (state.ledger now) else onDisk

end Keepwarm
