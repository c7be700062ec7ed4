import AgentWays.Engage.Engagement
import AgentWays.Lib.Interleave

/-
  Hooks that run at once and show one way to one agent.

  A hook reads the token position, asks without the lock
  whether the way may fire, runs the way's macro, and under
  the way's lock asks again with the position it has read,
  records the fire and delivers.

  Key definitions include:
    * `Engage.Call`
    * `Engage.act`
    * `Engage.hooks`
-/

------------------------------------------------------------
-- Hooks
------------------------------------------------------------

namespace Engage

/- What became of the way. -/
inductive Shown
| heldRefire (lastFire : Option Nat)
| heldContextCap
| delivered (position : Nat) (outcome : FireOutcome)
deriving DecidableEq

/- How far a hook has come. -/
inductive Call
| asked
| positioned (position : Nat)
| rendered (position : Nat)
| locked (position : Nat)
| admitted (position : Nat) (outcome : FireOutcome)
| leaving (shown : Shown)
| returned (shown : Shown)
deriving DecidableEq

/- A hook holds the way's lock. -/
def Call.holds : Call → Bool
| .locked _ => true
| .admitted _ _ => true
| .leaving _ => true
| _ => false

/- The position of the fire a hook has recorded. -/
def Call.recordedAt : Call → Option Nat
| .leaving (.delivered position _) => some position
| .returned (.delivered position _) => some position
| _ => none

/- The position at which a hook has delivered the way. -/
def Call.deliveredAt : Call → Option Nat
| .returned (.delivered position _) => some position
| _ => none

/- The token position, the way's state file, and its lock. -/
structure Session where
  position : Nat
  file : File
  lock : Bool
deriving DecidableEq

/-
  What the step depends on besides: whether the budget takes
  the body, and whether an unlocked read finds the file half
  written.
-/
structure Choice where
  fits : Bool
  torn : Bool
deriving DecidableEq

def Choice.go : Choice where
  fits := true
  torn := false

/- A step of `way_scored`. -/
def act
    (curve : Curve)
    (s : Session)
    (call : Call)
    (e : Choice) : Option (Session × Call) :=
  match call with
  | .asked => some (s, .positioned s.position)
  | .positioned position =>
      let decision :=
        wayFireOutcome (if e.torn then none else s.file) curve
          position
      if !decision.outcome.isAllowed then
        some (s, .returned (.heldRefire decision.lastFire))
      else if !e.fits then some (s, .returned .heldContextCap)
      else some (s, .rendered position)
  | .rendered position =>
      if s.lock then none
      else some ({ s with lock := true }, .locked position)
  | .locked position =>
      let decision := wayFireOutcome s.file curve position
      if !decision.outcome.isAllowed then
        some (s, .leaving (.heldRefire decision.lastFire))
      else if !e.fits then some (s, .leaving .heldContextCap)
      else some (s, .admitted position decision.outcome)
  | .admitted position outcome =>
      some
        ({ s with
            file := recordWayFire s.file curve position },
          .leaving (.delivered position outcome))
  | .leaving shown =>
      some ({ s with lock := false }, .returned shown)
  | .returned _ => none

/- The agent's transcript grows by some tokens. -/
def Session.advance
    (s : Session)
    (tokens : Nat) : Session :=
  { s with position := s.position + tokens }

abbrev Calls := Interleave.Crew Session Call
abbrev Move := Interleave.Move Unit Choice Nat

/- Every interleaving of the hooks of one way. -/
def hooks
    (curve : Curve) : StepMachine Calls Move Unit :=
  Interleave.machine (fun _ => .asked) (act curve)
    Session.advance

/- No hook is at work yet. -/
def initial
    (position : Nat)
    (file : File) : Calls where
  shared :=
    { position := position
      file := file
      lock := false }
  calls := []

end Engage
