import AgentWays.Attend.Peers

/-
  `attend run` beside the drain, over one seen-set.

  A tick of the run imports the persisted marks, polls the
  peers sensor, checkpoints and then discloses what its
  governor and the cache gate let through. Each of these is
  a step of `runMachine`, so arrivals, drains and a kill can
  fall between any two of them. The checkpoint comes before
  the disclosure: a line that is held is already recorded.

  Of a tick, the peers sensor and its message lane are
  modelled. What the governor and the cache gate answer is
  given by `TickEnv`.

  Key definitions include:
    * `Attend.Run`
    * `Attend.World`
    * `Attend.Run.disclose`
    * `Attend.tickStep`
    * `Attend.runMachine`
-/

------------------------------------------------------------
-- The Run
------------------------------------------------------------

namespace Attend

/- How far a tick is. -/
inductive Phase where
| idle
| imported
| polled (changed : Bool)
| recorded
| disclosed
deriving DecidableEq

/- The memory of an `attend run`. -/
structure Run where
  sensor : PeerSensor
  events : List Observation
  checkpointedOnce : Bool
  phase : Phase

/- One session, its persisted reply hint and its run. -/
structure World where
  session : Session
  hint : Bool
  run : Option Run

/- What one step of a tick reads of the world. -/
structure TickEnv where
  poll : PollEnv
  gateLapsed : Bool
  canDisclose : Bool
  intervalPassed : Bool
  listable : Bool

/- The sensor's write: its own fields over the file's. -/
def Session.checkpoint
    (s : Session)
    (p : PeerSensor)
    (listable : Bool) : Session :=
  let union := s.seen ∪ p.seenSignals
  { s with
    seen :=
      if listable then
        union.filter
          (fun k => k ∈ s.files.map SignalFile.name)
      else union
    baselined := s.baselined || p.baselined }

end Attend

------------------------------------------------------------
-- Disclosure
------------------------------------------------------------

namespace Attend

/- What the lines held come to, in quarters. -/
def Run.magnitude
    (run : Run) : Nat :=
  (run.events.map Observation.magnitude).sum

inductive Priority where
| high
| medium
| low
deriving DecidableEq

def priorityOf
    (magnitude : Nat) : Priority :=
  if 20 ≤ magnitude then .high
  else if 12 ≤ magnitude then .medium
  else .low

/- Lines printed for the session, and what they show. -/
structure Disclosure where
  priority : Priority
  lines : List String
  shows : List String
deriving DecidableEq

/- Each line once, at its first place. -/
def uniqueEvents
    (events : List Observation) : List String :=
  events.foldl
    (fun unique o =>
      if o.line ∈ unique then unique else unique ++ [o.line])
    []

/-
  The lines held go out unless the cache gate or the
  governor holds them. At low priority they are logged only.
-/
def Run.disclose
    (run : Run)
    (env : TickEnv) : Run × Option Disclosure :=
  if run.magnitude = 0 || env.gateLapsed ||
      !env.canDisclose then
    (run, none)
  else
    ({ run with events := [] },
      match priorityOf run.magnitude with
      | .low => none
      | priority =>
          some
            { priority := priority
              lines := uniqueEvents run.events
              shows := run.events.flatMap Observation.shows })

end Attend

------------------------------------------------------------
-- One Tick
------------------------------------------------------------

namespace Attend

/- The state written, and the world it leaves. -/
def World.checkpoint
    (w : World)
    (run : Run)
    (env : TickEnv) : World :=
  { w with
    session := w.session.checkpoint run.sensor env.listable
    hint := run.sensor.replyHintShown }

/- The marks of the drain, read before the scan. -/
def importMarks
    (w : World)
    (run : Run) : Run :=
  { run with
    sensor :=
      run.sensor.importState w.session.seen none
        w.session.baselined
    phase := .imported }

def pollPeers
    (w : World)
    (run : Run)
    (env : TickEnv) : Run :=
  let polled := run.sensor.poll env.poll w.session.files
  { run with
    sensor := polled.1
    events := run.events ++ polled.2
    phase := .polled (!polled.2.isEmpty) }

/- The next step of the tick. -/
def tickStep
    (w : World)
    (run : Run)
    (env : TickEnv) : World × Option Disclosure :=
  match run.phase with
  | .idle => ({ w with run := some (importMarks w run) }, none)
  | .imported =>
      ({ w with run := some (pollPeers w run env) }, none)
  | .polled changed =>
      if changed || !run.checkpointedOnce then
        ({ w.checkpoint run env with
            run :=
              some
                { run with
                  checkpointedOnce := true
                  phase := .recorded } },
          none)
      else
        ({ w with run := some { run with phase := .recorded } },
          none)
  | .recorded =>
      ({ w with
          run :=
            some
              { (run.disclose env).1 with
                phase := .disclosed } },
        (run.disclose env).2)
  | .disclosed =>
      let run' := { run with phase := .idle }
      if env.intervalPassed then
        ({ w.checkpoint run env with run := some run' }, none)
      else ({ w with run := some run' }, none)

end Attend

------------------------------------------------------------
-- Runs
------------------------------------------------------------

namespace Attend

/- A run that starts, with the persisted state restored. -/
def startRun
    (w : World)
    (own : Option String)
    (reopens : Bool) : World :=
  let session :=
    { w.session with
      baselined := w.session.baselined && !reopens }
  { w with
    session := session
    run :=
      some
        { sensor :=
            (PeerSensor.new own).importState session.seen
              (some w.hint) session.baselined
          events := []
          checkpointedOnce := false
          phase := .idle } }

/-
  What happens to the session. A run that starts is the only
  one, and reopens the cold start of a session that was not
  listening.
-/
inductive RunEvent where
| arrive (f : SignalFile)
| drain (env : DrainEnv)
| start (own : Option String) (reopens : Bool)
| tick (env : TickEnv)
| kill

/- What was printed. -/
inductive RunOut where
| nothing
| drained (out : DrainOut)
| disclosed (d : Disclosure)

def runMachine : StepMachine World RunEvent RunOut where
  step w event :=
    match event with
    | .arrive f =>
        ({ w with
            session :=
              { w.session with
                files := w.session.files ++ [f] } },
          .nothing)
    | .drain env =>
        ({ w with session := (cmdInboxDrain w.session env).1 },
          .drained (cmdInboxDrain w.session env).2)
    | .start own reopens =>
        match w.run with
        | some _ => (w, .nothing)
        | none => (startRun w own reopens, .nothing)
    | .tick env =>
        match w.run with
        | none => (w, .nothing)
        | some run =>
            match tickStep w run env with
            | (w', none) => (w', .nothing)
            | (w', some d) => (w', .disclosed d)
    | .kill => ({ w with run := none }, .nothing)

end Attend
