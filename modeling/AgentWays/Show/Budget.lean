import AgentWays.Engage.Engagement
import AgentWays.Lib.RustText
import AgentWays.Lib.StepMachine
import AgentWays.Lib.Utf16

/-
  The room of one hook's context, and the ways and checks
  that are shown within it.

  A check and the way it pulls in are one unit: the check
  holds back room for its sections while the way is
  admitted. What a call finds before it comes to the budget,
  and what the way's macro and refire curve say, are the
  call's own.

  Key definitions include:
    * `Show.ContextBudget`
    * `Show.wayScored`
    * `Show.checkWithin`
    * `Show.lane`
-/

------------------------------------------------------------
-- Room
------------------------------------------------------------

namespace Show

/- A JavaScript string length: UTF-16 code units. -/
def contextChars
    (s : String) : Nat :=
  (Utf16.encode s).length

structure ContextBudget where
  used : Nat
  cap : Nat
  reserved : Nat
  refusals : Nat
deriving DecidableEq

namespace ContextBudget

def new
    (cap : Nat) : ContextBudget where
  used := 0
  cap := cap
  reserved := 0
  refusals := 0

def fitsChars
    (b : ContextBudget)
    (n : Nat) : Bool :=
  b.used = 0 ∨ b.used + n + b.reserved ≤ b.cap

def fits
    (b : ContextBudget)
    (text : String) : Bool :=
  b.fitsChars (contextChars text)

/- A refusal the caller decided. -/
def refuse
    (b : ContextBudget) : ContextBudget :=
  { b with refusals := b.refusals + 1 }

/- A text charged whole, where it fits. -/
def admitText
    (b : ContextBudget)
    (text : String) : ContextBudget × Bool :=
  if b.fitsChars (contextChars text) then
    ({ b with used := b.used + contextChars text }, true)
  else (b.refuse, false)

/- Text that the caller adds between bodies. -/
def charge
    (b : ContextBudget)
    (text : String) : ContextBudget :=
  { b with used := b.used + contextChars text }

/- Room held back for what must follow the next body. -/
def reserve
    (b : ContextBudget)
    (text : String) : ContextBudget :=
  { b with reserved := contextChars text }

def commitReservation
    (b : ContextBudget) : ContextBudget :=
  { b with
    used := b.used + b.reserved
    reserved := 0 }

def cancelReservation
    (b : ContextBudget) : ContextBudget :=
  { b with reserved := 0 }

end ContextBudget

end Show

------------------------------------------------------------
-- Ways
------------------------------------------------------------

namespace Show

open Engage (FireOutcome)

/- What became of a way. -/
inductive ShowOutcome
| fired
| redisclosed
| heldRefire
| heldContextCap
| notFireable
| error
deriving DecidableEq

structure Shown where
  body : String
  outcome : ShowOutcome
deriving DecidableEq

def Shown.held
    (outcome : ShowOutcome) : Shown where
  body := ""
  outcome := outcome

/- A way's macro, where it has one that put something out. -/
inductive MacroOutput
| none
| prepended (out : String)
| appended (out : String)
deriving DecidableEq

def renderWay
    (body : String) : MacroOutput → String
| .none => body
| .prepended out => out ++ "\n\n" ++ body
| .appended out => body ++ "\n" ++ out

/-
  A call for a way: its static body, where it may fire; what
  its macro puts out; and what its refire curve says, before
  the macro and under the lock.
-/
structure WayCall where
  fireable : Except String (Option String)
  before : FireOutcome
  macroOutput : MacroOutput
  locked : FireOutcome

def wayScored
    (b : ContextBudget)
    (w : WayCall) : ContextBudget × Except String Shown :=
  match w.fireable with
  | .error e => (b, .error e)
  | .ok none => (b, .ok (.held .notFireable))
  | .ok (some body) =>
      if !w.before.isAllowed then
        (b, .ok (.held .heldRefire))
      else if !b.fits body then
        (b.refuse, .ok (.held .heldContextCap))
      else
        let output := renderWay body w.macroOutput
        if !w.locked.isAllowed then
          (b, .ok (.held .heldRefire))
        else
          match b.admitText output with
          | (b, false) => (b, .ok (.held .heldContextCap))
          | (b, true) =>
              (b, .ok
                { body := output
                  outcome :=
                    if w.locked = .reFire then .redisclosed
                    else .fired })

/- `capture_show_way`: a way that fails shows nothing. -/
def captureShowWay
    (b : ContextBudget)
    (w : WayCall) : ContextBudget × Shown :=
  match wayScored b w with
  | (b, .ok shown) => (b, shown)
  | (b, .error _) => (b, .held .error)

end Show

------------------------------------------------------------
-- Checks
------------------------------------------------------------

namespace Show

/-
  A call for a check: whether it comes to the budget at all
  (its file, scope, score and switches), its sections, and
  the call for its way, where that has not fired.
-/
structure CheckCall where
  passes : Except String Bool
  sections : String
  wayHasFired : Bool
  way : WayCall

/- The sections as they follow the way. -/
def CheckCall.following
    (c : CheckCall) : String :=
  "\n" ++ c.sections

/- The sections alone, unless the way was refused for the cap. -/
def checkAlone
    (b : ContextBudget)
    (refusalsBefore : Nat)
    (c : CheckCall) : ContextBudget × Except String String :=
  if refusalsBefore < b.refusals then (b, .ok "")
  else
    match b.admitText c.sections with
    | (b, true) => (b, .ok c.sections)
    | (b, false) => (b, .ok "")

def checkWithin
    (b : ContextBudget)
    (c : CheckCall) : ContextBudget × Except String String :=
  match c.passes with
  | .error e => (b, .error e)
  | .ok false => (b, .ok "")
  | .ok true =>
      let refusalsBefore := b.refusals
      if c.wayHasFired then checkAlone b refusalsBefore c
      else
        match wayScored (b.reserve c.following) c.way with
        | (b, .error e) => (b, .error e)
        | (b, .ok parent) =>
            if parent.body = "" then
              checkAlone b.cancelReservation refusalsBefore c
            else
              (b.commitReservation,
                .ok (parent.body ++ "\n" ++ c.sections))

/- `capture_show_check`: a check that fails shows nothing. -/
def captureShowCheck
    (b : ContextBudget)
    (c : CheckCall) : ContextBudget × String :=
  match checkWithin b c with
  | (b, .ok text) => (b, text)
  | (b, .error _) => (b, "")

end Show

------------------------------------------------------------
-- Lanes
------------------------------------------------------------

namespace Show

inductive Call
| way (w : WayCall)
| check (c : CheckCall)

/- A call, and whether its lane puts a separator after it. -/
structure Delivery where
  call : Call
  separated : Bool

def capture
    (b : ContextBudget) : Call → ContextBudget × String
| .way w =>
    ((captureShowWay b w).1, (captureShowWay b w).2.body)
| .check c => captureShowCheck b c

/- A hook's budget, its text, and the units in it. -/
structure Lane where
  budget : ContextBudget
  context : String
  units : List String

def Lane.new
    (cap : Nat) : Lane where
  budget := .new cap
  context := ""
  units := []

def Lane.deliver
    (s : Lane)
    (d : Delivery) : Lane × String :=
  let (budget, text) := capture s.budget d.call
  if text = "" then ({ s with budget := budget }, text)
  else if d.separated then
    ({ budget := budget.charge "\n\n"
       context := s.context ++ text ++ "\n\n"
       units := s.units ++ [text] }, text)
  else
    ({ budget := budget
       context := s.context ++ text
       units := s.units ++ [text] }, text)

/- The deliveries of one hook. -/
def lane : StepMachine Lane Delivery String where
  step := Lane.deliver

/- `str::trim_end`. -/
def trimEnd
    (s : String) : String :=
  String.ofList
    ((s.toList.reverse.dropWhile RustText.isWhitespace).reverse)

end Show
