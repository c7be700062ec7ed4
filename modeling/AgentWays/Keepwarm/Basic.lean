import AgentWays.Lib.RustText

/-
  The keepwarm sensor's constants, prices, files, readings
  and state.

  Seconds and token counts are unbounded naturals, and
  `saturating_sub` is their truncated subtraction. Dollars
  are `f64` and so `Float` here.

  Key definitions include:
    * `Keepwarm.priceOf`
    * `Keepwarm.ArmFile`
    * `Keepwarm.Ledger`
    * `Keepwarm.Reading`
    * `Keepwarm.cacheLapsed`
    * `Keepwarm.Policy`
    * `Keepwarm.State`
    * `Keepwarm.State.ledger`
    * `Keepwarm.State.resume`
    * `Keepwarm.Outcome`
-/

------------------------------------------------------------
-- Constants
------------------------------------------------------------

namespace Keepwarm

/- The main conversation's cache tier is one hour. -/
def ttlSecs : Nat := 60 * 60

/- The wake fires this far into an idle stretch. -/
def pingAfterSecs : Nat := 50 * 60

/- A paid cold write arms this much of a window. -/
def autoWarmSecs : Nat := 3 * 60 * 60

/- Below this context size the wake is not worth it. -/
def bigTokens : Nat := 50000

/- A cold write is only scored above this prior context. -/
def missFloorTokens : Nat := 20000

/- A cache counts as lapsed this long before its TTL. -/
def gateMarginSecs : Nat := 120

/- The five-minute cache tier's TTL. -/
def ttl5mSecs : Nat := 5 * 60

end Keepwarm

------------------------------------------------------------
-- Prices And Forms
------------------------------------------------------------

namespace Keepwarm

open RustText

/- Dollars per million tokens. -/
structure Price where
  read : Float
  write1h : Float
  output : Float

/- Longer family names first: the first match counts. -/
def prices : List (String × Price) :=
  [("fable-5-1", ⟨0.25, 20.0, 50.0⟩),
   ("fable-5", ⟨1.0, 20.0, 50.0⟩),
   ("opus-5", ⟨0.5, 10.0, 25.0⟩),
   ("opus-4", ⟨0.5, 10.0, 25.0⟩),
   ("sonnet-5", ⟨0.2, 4.0, 10.0⟩),
   ("sonnet", ⟨0.3, 6.0, 15.0⟩),
   ("haiku-5", ⟨0.01, 0.2, 0.5⟩),
   ("haiku", ⟨0.1, 2.0, 5.0⟩)]

def priceOf
    (model : String) : Option Price :=
  let m := replaceChars (toLowercase model) ['.', ' '] '-'
  (prices.find? (fun row => contains m row.1)).map
    Prod.snd

def fmtUsd : Option Float → String
| none => "n/a"
| some u =>
    if u ≥ 100.0 then "$" ++ fixed 0 u
    else "$" ++ fixed 2 u

def fmtTok
    (n : Nat) : String :=
  if n ≥ 1000000 then
    fixed 1 (Float.ofNat n / 1e6) ++ "M"
  else if n ≥ 1000 then
    toString ((n + 500) / 1000) ++ "k"
  else toString n

/- `6h00m`, `35m`, `2d 3h`. -/
def fmtDuration
    (secs : Nat) : String :=
  let total := (secs + 30) / 60
  let h := total / 60
  let m := total % 60
  if h ≥ 48 then
    toString (h / 24) ++ "d " ++ toString (h % 24) ++ "h"
  else if h > 0 then
    toString h ++ "h" ++ pad2 m ++ "m"
  else toString m ++ "m"

end Keepwarm

------------------------------------------------------------
-- Files
------------------------------------------------------------

namespace Keepwarm

/-
  The arm file. A deadline of zero is disarmed; `auto` marks
  the sensor's own arm after a paid cold write.
-/
structure ArmFile where
  deadline : Nat
  armedAt : Nat
  windowSecs : Nat
  auto : Bool
deriving DecidableEq

structure Miss where
  at' : Nat
  tokens : Nat
  usd : Option Float
deriving DecidableEq

structure PingRecord where
  at' : Nat
  read : Nat
  write : Nat
  usd : Option Float
  warm : Bool
deriving DecidableEq

/- What the last check found of `wrap_skill`. -/
inductive SkillSeen where
| listed
| missing
| unread
deriving DecidableEq

/- The keepalive policy's part of the ledger. -/
structure Policy where
  count : Nat := 0
  operatorAt : Option Nat := none
  stretchFrom : Option Nat := none
  wrappedAt : Option Nat := none
  stopped : Option String := none
  wrapOutcome : Option String := none
  gate : Option String := none
  pending : Bool := false
  spentUsd : Float := 0.0
  afterCount : Nat := 0
  compactFocus : Option String := none
  compactedAt : Option Nat := none
  compactFailed : Option String := none
  skillSeen : Option SkillSeen := none
  oldHost : Bool := false
deriving DecidableEq

/- Where the last step left the clock. -/
structure Cursor where
  lastSeenAt : Nat
  ctx : Nat
  model : String
  deadline : Nat
deriving DecidableEq

structure Ledger where
  misses : List Miss := []
  lastPing : Option PingRecord := none
  stopped : Option String := none
  pingedAt : Option Nat := none
  updatedAt : Nat := 0
  cursor : Option Cursor := none
  policy : Policy := {}
deriving DecidableEq

/- The deadline an arm file gives; no file gives zero. -/
def armDeadline
    (arm : Option ArmFile) : Nat :=
  (arm.map ArmFile.deadline).getD 0

end Keepwarm

------------------------------------------------------------
-- Readings
------------------------------------------------------------

namespace Keepwarm

/- One assistant message's usage. -/
structure UsageEntry where
  atEpoch : Nat
  model : String
  input : Nat
  cacheRead : Nat
  cacheCreation : Nat
  output : Nat
  tier : String
deriving DecidableEq

/- The context the API saw on this request. -/
def UsageEntry.context
    (e : UsageEntry) : Nat :=
  e.input + e.cacheRead + e.cacheCreation

def UsageEntry.ttlSecs
    (e : UsageEntry) : Nat :=
  if e.tier = "5m" then ttl5mSecs else Keepwarm.ttlSecs

/- The slice of `ways context --json` the sensor reads. -/
structure Reading where
  tokensUsed : Nat
  model : String
  method : String
  usageTail : List UsageEntry
deriving DecidableEq

def Reading.lastAt
    (r : Reading) : Nat :=
  (r.usageTail.getLast?.map UsageEntry.atEpoch).getD 0

/- A reading whose one request read a large warm cache. -/
def warmReading
    (at' : Nat) : Reading :=
  { tokensUsed := 200000
    model := "opus-5"
    method := ""
    usageTail :=
      [ { atEpoch := at'
          model := ""
          input := 0
          cacheRead := 200000
          cacheCreation := 0
          output := 1
          tier := "1h" } ] }

/- Whether the prompt cache has lapsed at `now`. -/
def cacheLapsed
    (reading : Option Reading)
    (now : Nat) : Bool :=
  match reading.bind (fun r => r.usageTail.getLast?) with
  | some last =>
      if last.atEpoch > 0 then
        now - last.atEpoch ≥ last.ttlSecs - gateMarginSecs
      else true
  | none => true

end Keepwarm

------------------------------------------------------------
-- State And Outcome
------------------------------------------------------------

namespace Keepwarm

structure State where
  deadline : Nat := 0
  baselined : Bool := false
  lastSeenAt : Nat := 0
  ctx : Nat := 0
  model : String := ""
  pingedAt : Option Nat := none
  misses : List Miss := []
  lastPing : Option PingRecord := none
  stopped : Option String := none
  policy : Policy := {}
deriving DecidableEq

/-
  What one poll decided. `armWrite` is a new deadline for
  the arm file, `changed` asks for the ledger's rewrite. An
  observation is a weight and a wake line.
-/
structure Outcome where
  observations : List (Float × String) := []
  logs : List String := []
  armWrite : Option Nat := none
  autoArm : Bool := false
  changed : Bool := false
deriving DecidableEq

namespace State

/- The state a ledger remembers, to be baselined afresh. -/
def fromLedger : Option Ledger → State
| none => {}
| some l =>
    { misses := l.misses
      lastPing := l.lastPing
      stopped := l.stopped
      pingedAt := l.pingedAt
      policy := l.policy }

/- The state that picks up where the last step left it. -/
def resume
    (ledger : Option Ledger) : State :=
  match ledger.bind Ledger.cursor with
  | none => fromLedger ledger
  | some c =>
      { fromLedger ledger with
        baselined := true
        lastSeenAt := c.lastSeenAt
        ctx := c.ctx
        model := c.model
        deadline := c.deadline }

def ledger
    (s : State)
    (now : Nat) : Ledger :=
  { misses := s.misses
    lastPing := s.lastPing
    stopped := s.stopped
    pingedAt := s.pingedAt
    updatedAt := now
    policy := s.policy
    cursor :=
      if s.baselined then
        some
          { lastSeenAt := s.lastSeenAt
            ctx := s.ctx
            model := s.model
            deadline := s.deadline }
      else none }

/- A baselined state crosses the ledger unchanged. -/
theorem resume_ledger
    {s : State}
    (hBaselined : s.baselined = true)
    (now : Nat) :
    resume (some (s.ledger now)) = s := by
  cases s
  simp_all [resume, ledger, fromLedger]

/- The policy's marks cross the ledger in every state. -/
@[simp] theorem policy_resume_ledger
    (s : State)
    (now : Nat) :
    (resume (some (s.ledger now))).policy = s.policy := by
  cases hBaselined : s.baselined with
  | false => simp [resume, ledger, fromLedger, hBaselined]
  | true => rw [resume_ledger hBaselined]

end State

end Keepwarm
