import AgentWays.Lib.KeyMap
import AgentWays.Lib.RustText
import AgentWays.Scan.Order

/-
  The relevance gate on the prompt lane: the ways a scan
  would show are sent to the judge, those judged below the
  threshold are blocked, and the rest are admitted in order.

  The judge's figures are of any type with an order; how one
  is printed and what the judge answers are parameters.

  Key definitions include:
    * `Scan.Relevance.run`
    * `Scan.Relevance.decide`
    * `Scan.Relevance.withAncestor`
    * `Scan.Relevance.admitHits`
-/

------------------------------------------------------------
-- Requests And Replies
------------------------------------------------------------

namespace Scan

namespace Relevance

open RustText

/- A way's id, by its characters. -/
abbrev Id := List Char

/- The fields of a log line. -/
abbrev Fields := List (String × String)

/- `Pending`: a way the lane would show. -/
structure Waiting where
  id : Id
  description : String
  patternStrict : Bool
deriving DecidableEq, Repr

/- `LogContext`, with the agent the scan runs for. -/
structure Context where
  session : String
  project : String
  scope : String
  hookEvent : String
  agent : String
deriving DecidableEq, Repr

inductive Mode
| enforce
| shadow
| off
deriving DecidableEq, Repr

def Mode.asStr : Mode → String
| .enforce => "enforce"
| .shadow => "shadow"
| .off => "off"

structure Usage where
  input : Nat
  output : Nat
  cacheRead : Nat
  cacheWrite : Nat
deriving DecidableEq, Repr

structure JudgeCall where
  engine : String
  provider : String
  model : String
  candidates : Nat
  usage : Option Usage
  costUsd : Option String
  costSource : String
deriving DecidableEq, Repr

/- What the gate reads of the engine's settings. -/
structure Settings where
  engine : String
  provider : String
  claudeCode : Bool
  model : String
  maxCandidates : Nat
  timeoutMs : Nat
deriving DecidableEq, Repr

/- `JudgeCall::priced`, of a call whose usage is unknown. -/
def unpriced
    (engine : String)
    (s : Settings)
    (candidates : Nat) : JudgeCall where
  engine := engine
  provider := s.provider
  model := s.model
  candidates := candidates
  usage := none
  costUsd := none
  costSource := "unknown"

inductive Role
| assistant
| user
deriving DecidableEq, Repr

structure Request where
  session : String
  tool : String
  turns : List (Role × String)
  candidates : List (Id × String)
deriving DecidableEq, Repr

section Judging

/- The judge's figures, and how a line prints one. -/
variable {P : Type} [LE P] [DecidableLE P]

structure Verdict (P : Type) where
  id : Id
  pYes : P

structure Judged (P : Type) where
  engine : String
  model : String
  mode : Mode
  threshold : P
  verdicts : List (Verdict P)
  latencyMs : Nat
  call : Option JudgeCall

inductive Reply (P : Type)
| judged (j : Judged P)
| fallback (reason : String) (call : Option JudgeCall)
| error (message : String)
| other (shown : String)

structure Printed (P : Type) where
  two : P → String
  three : P → String

structure Judgement (P : Type) where
  pYes : P
  verdict : String

inductive Status
| off
| idle
| judged (engine model : String) (judgeMs : Nat)
| fallback (reason : String)
deriving DecidableEq, Repr

/- The ways blocked, each with the fields of its line. -/
abbrev Blocked := KeyMap Id Fields

/- What the gate decided on one scan. -/
structure Gate (P : Type) where
  blocked : Blocked
  judgements : KeyMap Id (Judgement P)
  status : Status
  capped : List Id

def Gate.idle : Gate P where
  blocked := KeyMap.empty
  judgements := KeyMap.empty
  status := .idle
  capped := []

/- A gate that failed open. -/
def Gate.open
    (reason : String) : Gate P where
  blocked := KeyMap.empty
  judgements := KeyMap.empty
  status := .fallback reason
  capped := []

------------------------------------------------------------
-- Verdicts
------------------------------------------------------------

/- Where a line was logged from. -/
def Context.tail
    (c : Context) : Fields :=
  [("hook", c.hookEvent), ("scope", c.scope),
    ("project", c.project), ("session", c.session)]

/- `pass`, `block` or `would_block`. -/
def verdictOf
    (j : Judged P)
    (v : Verdict P) : String :=
  if j.threshold ≤ v.pYes then "pass"
  else if j.mode = .enforce then "block"
  else "would_block"

/- The fields of a `way_judged` line. -/
def judgedFields
    (print : Printed P)
    (c : Context)
    (elapsedMs : String)
    (j : Judged P)
    (v : Verdict P) : Fields :=
  [("event", "way_judged"),
    ("way", String.ofList v.id),
    ("p_yes", print.three v.pYes),
    ("threshold", print.two j.threshold),
    ("verdict", verdictOf j v),
    ("mode", j.mode.asStr),
    ("engine", j.engine),
    ("model", j.model),
    ("judge_ms", toString j.latencyMs),
    ("gate_ms", elapsedMs),
    ("candidates", toString j.verdicts.length)] ++
  c.tail ++ [("agent_id", c.agent)]

/- One verdict into the gate. -/
def decideOne
    (print : Printed P)
    (c : Context)
    (elapsedMs : String)
    (j : Judged P)
    (g : Gate P)
    (v : Verdict P) : Gate P :=
  { g with
    judgements :=
      g.judgements.insert v.id
        { pYes := v.pYes, verdict := verdictOf j v }
    blocked :=
      if verdictOf j v = "block" then
        g.blocked.insert v.id
          (judgedFields print c elapsedMs j v)
      else g.blocked }

/- `decide`, with the lines it logs. -/
def decide
    (print : Printed P)
    (c : Context)
    (elapsedMs : String)
    (j : Judged P) : Gate P × List Fields :=
  (j.verdicts.foldl (decideOne print c elapsedMs j)
    { blocked := KeyMap.empty
      judgements := KeyMap.empty
      status := .judged j.engine j.model j.latencyMs
      capped := [] },
    j.verdicts.map (judgedFields print c elapsedMs j))

/- The figures of a call, which only the judged way keeps. -/
def callFigures : List String :=
  ["judge_ms", "gate_ms", "candidates"]

/- A line's fields with the ancestor it comes from. -/
def fromAncestor
    (ancestor : Id)
    (fields : Fields) : Fields :=
  let kept :=
    fields.filter fun f => !callFigures.contains f.1
  if kept.any (fun f => f.1 == "reason") then kept
  else
    kept ++
      [("reason", "ancestor"),
        ("ancestor", String.ofList ancestor)]

/- A field of the line, for another way. -/
def forWay
    (id : Id)
    (f : String × String) : String × String :=
  if f.1 = "way" then (f.1, String.ofList id) else f

/- A line's fields for a way blocked with its ancestor. -/
def inherited
    (id ancestor : Id)
    (fields : Fields) : Fields :=
  (fromAncestor ancestor fields).map (forWay id)

/- The nearest blocked ancestor of a way. -/
def blocker
    (blocked : Blocked)
    (id : Id) : Option (Id × Fields) :=
  maxBy
    (fun a b => compare (Utf8.size a.1) (Utf8.size b.1))
    (blocked.entries.filter
      fun e => isProperAncestor e.1 id)

/- `with_ancestor`, with the line it logs. -/
def withAncestor
    (blocked : Blocked)
    (id : Id) : Blocked × List Fields :=
  if (blocked.get? id).isSome then (blocked, [])
  else
    match blocker blocked id with
    | none => (blocked, [])
    | some b =>
        let fields := inherited id b.1 b.2
        (blocked.insert id fields, [fields])

/- Each unjudged way under a blocked one goes with it. -/
def withAncestors
    (ids : List Id)
    (blocked : Blocked) : Blocked × List Fields :=
  ids.foldl
    (fun s id =>
      let r := withAncestor s.1 id
      (r.1, s.2 ++ r.2))
    (blocked, [])

------------------------------------------------------------
-- A Run
------------------------------------------------------------

/- `turns`: the last reply, then the prompt. -/
def turns
    (prompt : String)
    (responseContext : Option String) :
    List (Role × String) :=
  ((responseContext.map trim).filter (fun r => r ≠ "")).toList.map
    (fun r => (Role.assistant, r)) ++ [(Role.user, prompt)]

/- `way_text`: the way's path, and then what it is for. -/
def wayText
    (id : Id)
    (description : String) : String :=
  let route :=
    ((id.splitOn '/').filter (fun s => s ≠ [])).map
      String.ofList
  " › ".intercalate route ++ "\n" ++ trim description

/- The fields of a `judge_call` line. -/
def callFields
    (c : Context)
    (call : JudgeCall)
    (reason : Option String) : Fields :=
  [("event", "judge_call"),
    ("outcome",
      if reason.isSome then "fallback" else "judged"),
    ("engine", call.engine),
    ("provider", call.provider),
    ("model", call.model),
    ("candidates", toString call.candidates),
    ("cost_source", call.costSource)] ++
  (reason.map (fun r => ("reason", r))).toList ++
  (match call.usage with
  | none => []
  | some u =>
      [("input_tokens", toString u.input),
        ("output_tokens", toString u.output),
        ("cache_read_tokens", toString u.cacheRead),
        ("cache_write_tokens", toString u.cacheWrite)]) ++
  (call.costUsd.map (fun usd => ("cost_usd", usd))).toList ++
  c.tail

/- The fields of a `gate_fallback` line. -/
def fallbackFields
    (c : Context)
    (reason : String)
    (candidates : Nat)
    (elapsedMs : String) : Fields :=
  [("event", "gate_fallback"),
    ("reason", reason),
    ("gate_ms", elapsedMs),
    ("candidates", toString candidates)] ++ c.tail

/- Whether a reason says the provider was reached. -/
def reachedProvider
    (s : Settings)
    (reason : String) : Bool :=
  !s.claudeCode &&
    (reason == "deadline" ||
      ["transport", "provider_", "answer"].any
        (startsWith reason))

/- `fallback`: nothing is blocked. -/
def failOpen
    (c : Context)
    (reason : String)
    (candidates : Nat)
    (elapsedMs : String)
    (earlier : List Fields) : Gate P × List Fields :=
  (.open reason,
    earlier ++
      [fallbackFields c reason candidates elapsedMs])

/- The gate a reply leaves, with the lines it logs. -/
def answered
    (print : Printed P)
    (s : Settings)
    (c : Context)
    (elapsedMs : String)
    (judgedCount : Nat)
    (unjudged : List Id) :
    Except String (Reply P) → Gate P × List Fields
| .ok (.judged j) =>
    let call :=
      j.call.getD (unpriced j.engine s j.verdicts.length)
    let d := decide print c elapsedMs j
    let w := withAncestors unjudged d.1.blocked
    ({ d.1 with blocked := w.1 },
      callFields c call none :: (d.2 ++ w.2))
| .ok (.fallback reason call) =>
    let line :=
      match call with
      | some call => [callFields c call (some reason)]
      | none =>
          if reachedProvider s reason then
            [callFields c (unpriced s.engine s judgedCount)
              (some reason)]
          else []
    failOpen c reason judgedCount elapsedMs line
| .ok (.error message) =>
    failOpen c ("agent_error: " ++ message) judgedCount
      elapsedMs []
| .ok (.other shown) =>
    failOpen c ("unexpected_reply: " ++ shown) judgedCount
      elapsedMs []
| .error reason =>
    let line :=
      if reason = "deadline" then
        [callFields c (unpriced s.engine s judgedCount)
          (some reason)]
      else []
    failOpen c reason judgedCount elapsedMs line

/- The ways sent to the judge, in the matcher's order. -/
def candidatesOf
    (waiting : List Waiting) : List Waiting :=
  waiting.filter fun w => !w.patternStrict

/- The request for the ways within the cap. -/
def requestOf
    (waiting : List Waiting)
    (prompt : String)
    (responseContext : Option String)
    (s : Settings)
    (c : Context) : Request where
  session := c.session
  tool := "claude-code"
  turns := turns prompt responseContext
  candidates :=
    ((candidatesOf waiting).take s.maxCandidates).map
      fun w => (w.id, wayText w.id w.description)

/- The fields of a `gate_capped` line. -/
def cappedFields
    (s : Settings)
    (c : Context)
    (unjudged : List Id) : Fields :=
  [("event", "gate_capped"),
    ("judged", toString s.maxCandidates),
    ("unjudged", toString unjudged.length),
    ("ways", ",".intercalate (unjudged.map String.ofList))] ++
  c.tail

/- `run`: `call` answers a request within a time. -/
def run
    (print : Printed P)
    (waiting : List Waiting)
    (prompt : String)
    (responseContext : Option String)
    (s : Settings)
    (c : Context)
    (elapsedMs : String)
    (call : Request → Nat → Except String (Reply P)) :
    Gate P × List Fields :=
  let judged := candidatesOf waiting
  if judged = [] then (.idle, [])
  else
    let unjudged :=
      (judged.drop s.maxCandidates).map Waiting.id
    let capLine :=
      if s.maxCandidates < judged.length then
        [cappedFields s c unjudged]
      else []
    let reply :=
      call (requestOf waiting prompt responseContext s c)
        (s.timeoutMs + 1500)
    let r :=
      answered print s c elapsedMs
        (judged.take s.maxCandidates).length unjudged reply
    ({ r.1 with capped := unjudged }, capLine ++ r.2)

------------------------------------------------------------
-- Admission
------------------------------------------------------------

/- What precedes a path's last slash. -/
def parentPath
    (path : Id) : Option Id :=
  match path.reverse.dropWhile (· ≠ '/') with
  | [] => none
  | _ :: up => some up.reverse

def ancestorsFrom : Nat → Id → List Id
| 0, _ => []
| fuel + 1, path =>
    match parentPath path with
    | none => []
    | some up => up :: ancestorsFrom fuel up

/- `ancestors`: the proper ones, nearest first. -/
def ancestors
    (id : Id) : List Id :=
  ancestorsFrom id.length id

def hasShownAncestor
    (id : Id)
    (shown : List Id) : Bool :=
  (ancestors id).any fun a => shown.contains a

/- What a hit fired on. -/
structure Payload where
  channel : String
  matchedSpan : Option String
  needsParent : Bool
deriving DecidableEq, Repr

/- What became of a hit. -/
inductive Result
| judgeBlock
| ancestorBlock
| withheld
| offered (outcome : String)
deriving DecidableEq, Repr

def Result.asStr : Result → String
| .judgeBlock => "judge_block"
| .ancestorBlock => "ancestor_block"
| .withheld => "withheld_for_parent"
| .offered outcome => outcome

/- `block_result`. -/
def blockResult
    (blocked : Blocked)
    (id : Id) : Option Result :=
  (blocked.get? id).map fun fields =>
    if fields.contains ("reason", "ancestor") then
      .ancestorBlock
    else .judgeBlock

/- What the turn's record says of a hit. -/
structure Outcome (S : Type) where
  way : Id
  rank : Nat
  channel : String
  score : Option S
  result : Result
  judge : Fields

/- What the record takes from the gate for a hit. -/
def judgeFields
    (print : Printed P)
    (blocked : Blocked)
    (judgements : KeyMap Id (Judgement P))
    (id : Id)
    (result : Result) : Fields :=
  let get := fun (fields : Fields) (k as : String) =>
    ((fields.find? (fun f => f.1 == k)).map
      (fun f => (as, f.2))).toList
  match blocked.get? id, result with
  | some fields, .judgeBlock =>
      get fields "p_yes" "p_yes" ++
        get fields "threshold" "threshold" ++
        get fields "mode" "mode" ++
        get fields "ancestor" "ancestor"
  | some fields, .ancestorBlock =>
      get fields "p_yes" "ancestor_p_yes" ++
        get fields "threshold" "ancestor_threshold" ++
        get fields "mode" "mode" ++
        get fields "ancestor" "ancestor"
  | _, _ =>
      match judgements.get? id with
      | none => []
      | some j =>
          [("p_yes", print.three j.pYes),
            ("verdict", j.verdict)]

/- The lane as it admits its hits. -/
structure Lane (S σ : Type) where
  blocked : Blocked
  shown : List Id
  outcomes : List (Outcome S)
  log : List Fields
  context : σ

variable {S σ : Type}

/-
  `withheld_for_parent`: a way whose parent is not shown is
  kept out, with its ancestor's block if it was to be judged.
-/
def withheldForParent
    (waiting : List Waiting)
    (l : Lane S σ)
    (id : Id) : Option (Lane S σ) :=
  if hasShownAncestor id l.shown then none
  else if waiting.any (fun w => w.id == id) then
    let r := withAncestor l.blocked id
    some { l with blocked := r.1, log := l.log ++ r.2 }
  else some l

/- The state, the result and whether a body was delivered. -/
def admitOne
    (waiting : List Waiting)
    (deliver : Hit S Payload → σ → String × Bool × σ)
    (l : Lane S σ)
    (h : Hit S Payload) : Lane S σ × Result :=
  match blockResult l.blocked h.id with
  | some result => (l, result)
  | none =>
      let kept :=
        if h.payload.needsParent then
          withheldForParent waiting l h.id
        else none
      match kept with
      | some l =>
          (l, (blockResult l.blocked h.id).getD .withheld)
      | none =>
          let r := deliver h l.context
          ({ l with
             shown :=
               if r.2.1 then l.shown ++ [h.id] else l.shown
             context := r.2.2 }, .offered r.1)

/- `Record::hit`: what became of the hit at a rank. -/
def recordOf
    (print : Printed P)
    (judgements : KeyMap Id (Judgement P))
    (rank : Nat)
    (h : Hit S Payload)
    (l : Lane S σ)
    (result : Result) : Outcome S where
  way := h.id
  rank := rank
  channel := h.payload.channel
  score := h.score
  result := result
  judge := judgeFields print l.blocked judgements h.id result

def recordHit
    (print : Printed P)
    (judgements : KeyMap Id (Judgement P))
    (rank : Nat)
    (h : Hit S Payload)
    (l : Lane S σ)
    (result : Result) : Lane S σ :=
  { l with
    outcomes :=
      l.outcomes ++ [recordOf print judgements rank h l result] }

/- The hits admitted in order, each with its record. -/
def admitFrom
    (print : Printed P)
    (judgements : KeyMap Id (Judgement P))
    (waiting : List Waiting)
    (deliver : Hit S Payload → σ → String × Bool × σ) :
    Nat → Lane S σ → List (Hit S Payload) → Lane S σ
| _, l, [] => l
| i, l, h :: rest =>
    let r := admitOne waiting deliver l h
    admitFrom print judgements waiting deliver (i + 1)
      (recordHit print judgements i h r.1 r.2) rest

/- `admit_hits`, over the gate and a lane's context. -/
def admitHits
    (print : Printed P)
    (gate : Gate P)
    (waiting : List Waiting)
    (deliver : Hit S Payload → σ → String × Bool × σ)
    (context : σ)
    (hits : List (Hit S Payload)) : Lane S σ :=
  admitFrom print gate.judgements waiting deliver 1
    { blocked := gate.blocked
      shown := []
      outcomes := []
      log := []
      context := context } hits

end Judging

end Relevance

end Scan
