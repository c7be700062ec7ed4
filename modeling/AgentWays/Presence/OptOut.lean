import AgentWays.Lib.StepMachine
import AgentWays.Presence.Enrollment

/-
  Opting out beside a live run.

  One session's record, the lock its `attend run` holds, and
  the calls that rewrite the record. `opt_out` looks for a
  live run and then takes the record's lock; so does the
  question whether the session is enrolled, when it finds a
  pending opt-out with no run. Both are two steps here, and
  anything may fall between them. A run takes its lock, then
  reads the clock for its start, then enrolls. One that
  re-executes itself gives its lock up, takes it again and
  enrolls with the start it had; a re-executed run that
  finds the lock taken is left out.

  The clock is in milliseconds. Runs are numbered as they
  start, `found` is the run a look found, `started` whether
  that run had read its start, and `optedOut` the number of
  runs that had started when the last opt-out rewrote the
  record; the code reads of these only whether a run was
  found.

  Key definitions include:
    * `Presence.Standing`
    * `Presence.Mark`
    * `Presence.optOutMachine`
    * `Presence.Standing.listening`
-/

------------------------------------------------------------
-- The State
------------------------------------------------------------

namespace Presence

/- A run of the session, and its start once it is read. -/
structure Holder where
  since : Option Nat
  run : Nat
deriving DecidableEq

/- An opt-out past its look for a live run. -/
structure OptOut where
  found : Option Nat
  started : Bool
  made : Nat
deriving DecidableEq

/- The session as its record, its lock and its calls. -/
structure Standing where
  dir : Enrolled
  lock : Option Holder
  reexecuting : Option Holder
  clock : Nat
  starts : Nat
  optOuts : List OptOut
  asks : Nat
  optedOut : Option Nat
deriving DecidableEq

/- The run that holds the lock, or is to take it again. -/
def Standing.present
    (p : Standing) : Option Holder :=
  p.lock.or p.reexecuting

/- The listening judgement. -/
def Standing.listening
    (p : Standing)
    (sid : String) : Bool :=
  match p.dir.readIn sid with
  | none => false
  | some r =>
      !r.sources.isEmpty && !(r.optout && p.lock.isNone)

end Presence

------------------------------------------------------------
-- Steps
------------------------------------------------------------

namespace Presence

/-
  What happens to the session. A membership that ends
  withdraws the join or the add.
-/
inductive Mark where
| elapse (ms : Nat)
| take (inherits : Bool)
| stamp
| release (reexecutes : Bool)
| enrollRun (claude : Option String)
| optOutLook
| optOutWrite (i : Nat)
| askLook
| askWrite
| enroll (source : Source) (host : Option Host)
    (claude : Option String)
| withdraw (added : Bool)
deriving DecidableEq

/- The lock taken, by a new run or one that re-executed. -/
def Standing.take
    (p : Standing)
    (inherits : Bool) : Standing :=
  if p.lock.isSome then p
  else if inherits then
    { p with lock := p.reexecuting, reexecuting := none }
  else
    { p with
      lock := some { since := none, run := p.starts + 1 }
      reexecuting := none
      starts := p.starts + 1 }

/- The start of a run that has none yet. -/
def Standing.stamp
    (p : Standing) : Standing :=
  match p.lock with
  | some ⟨none, run⟩ =>
      { p with
        lock := some { since := some p.clock, run := run } }
  | _ => p

/- The lock given up, at the run's end or for its exec. -/
def Standing.release
    (p : Standing)
    (reexecutes : Bool) : Standing :=
  match p.lock with
  | none => p
  | some holder =>
      { p with
        lock := none
        reexecuting :=
          if reexecutes then some holder else none }

/-
  The run that holds the lock enrolls. One that started
  after the last opt-out rewrote the record overrides it.
-/
def Standing.enrollRun
    (p : Standing)
    (sid : String)
    (claude : Option String) : Standing :=
  match p.lock with
  | some ⟨some since, run⟩ =>
      { p with
        dir :=
          p.dir.editIn sid
            (enrollRecord .run none claude (some since)
              (p.clock / 1000))
        optedOut :=
          p.optedOut.filter (fun n => decide (run ≤ n)) }
  | _ => p

/- `opt_out` up to the record's lock. -/
def Standing.optOutLook
    (p : Standing) : Standing :=
  { p with
    optOuts :=
      p.optOuts ++
        [{ found := p.lock.map Holder.run
           started := (p.lock.bind Holder.since).isSome
           made := p.clock }] }

/- `opt_out` under the record's lock. -/
def Standing.optOutWrite
    (p : Standing)
    (sid : String)
    (i : Nat) : Standing :=
  match p.optOuts[i]? with
  | none => p
  | some o =>
      { p with
        dir :=
          p.dir.editIn sid
            (optOutRecord o.found.isSome o.made)
        optOuts := p.optOuts.eraseIdx i
        optedOut := some p.starts }

/- `is_enrolled` up to the record's lock. -/
def Standing.askLook
    (p : Standing)
    (sid : String) : Standing :=
  match p.dir.readIn sid with
  | none => p
  | some r =>
      if r.optout && p.lock.isNone then
        { p with asks := p.asks + 1 }
      else p

/- `is_enrolled` under the record's lock. -/
def Standing.askWrite
    (p : Standing)
    (sid : String) : Standing :=
  if p.asks = 0 then p
  else
    { p with
      dir := p.dir.editIn sid applyOptOut
      asks := p.asks - 1 }

def Standing.step
    (sid : String)
    (p : Standing) : Mark → Standing
| .elapse ms => { p with clock := p.clock + ms }
| .take inherits => p.take inherits
| .stamp => p.stamp
| .release reexecutes => p.release reexecutes
| .enrollRun claude => p.enrollRun sid claude
| .optOutLook => p.optOutLook
| .optOutWrite i => p.optOutWrite sid i
| .askLook => p.askLook sid
| .askWrite => p.askWrite sid
| .enroll source host claude =>
    { p with
      dir :=
        p.dir.editIn sid
          (enrollRecord source host claude none
            (p.clock / 1000))
      optedOut := none }
| .withdraw added =>
    { p with
      dir :=
        p.dir.editIn sid
          (withdrawRecord (if added then .add else .join)) }

def optOutMachine
    (sid : String) : StepMachine Standing Mark Unit where
  step p mark := (p.step sid mark, ())

end Presence
