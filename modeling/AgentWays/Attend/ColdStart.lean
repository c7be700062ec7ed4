import Mathlib.Algebra.Group.Nat.Defs
import Mathlib.Data.List.Sort
import Mathlib.Data.List.Basic

/-
  The cold-start rule: what a conduit delivers on its first
  scan, when the session has no seen-set yet.

  Times are nanoseconds. A message is given by its room and
  its age.

  Key definitions include:
    * `Attend.Room`
    * `Attend.Window`
    * `Attend.Window.reaches`
    * `Attend.plan`
    * `Attend.heldBackNote`
-/

------------------------------------------------------------
-- Rooms
------------------------------------------------------------

namespace Attend

/- Which room a receive directory is. -/
inductive Room where
| project
| openRoom
| channel (name : String)
deriving DecidableEq

def Room.isTray : Room → Bool
| .project => true
| _ => false

def Room.isChannel : Room → Bool
| .channel _ => true
| _ => false

/- The scope label a drained message carries. -/
def roomLabel : Room → String
| .project => "project"
| .openRoom => "#open"
| .channel name => "@" ++ name

end Attend

------------------------------------------------------------
-- The Window
------------------------------------------------------------

namespace Attend

/- Two minutes. -/
def freshWindow : Nat := 120 * 10 ^ 9

def addressedMax : Nat := 50

def roomMax : Nat := 50

/- How far back a cold start replays. -/
structure Window where
  session : Option Nat
  listening : Option Nat
  briefings : List (String × Nat)
deriving DecidableEq

/- A message from before an add to its channel. -/
def Window.briefs
    (w : Window)
    (room : Room)
    (age : Nat) : Bool :=
  match room with
  | .channel name =>
      w.briefings.any
        (fun b => decide (b.1 = name) && decide (b.2 ≤ age))
  | _ => false

/- Whether a message was said to the session. -/
def Window.reaches
    (w : Window)
    (room : Room)
    (age : Nat) : Bool :=
  if w.briefs room age then true
  else
    match room, w.session, w.listening with
    | .project, some began, _ => decide (age ≤ began)
    | .project, none, _ => decide (age ≤ freshWindow)
    | _, _, none => decide (age ≤ freshWindow)
    | _, _, some joined =>
        decide (age ≤ max joined freshWindow)

end Attend

------------------------------------------------------------
-- The Plan
------------------------------------------------------------

namespace Attend

/- What a cold start does with each pending message. -/
structure Plan where
  deliver : List Bool
  notShown : Nat
deriving DecidableEq

/- The line that announces messages not shown. -/
def heldBackNote : Nat → Option String
| 0 => none
| 1 =>
    some
      ("1 older message held back; reading it is optional: " ++
        "attend message inbox")
| n =>
    some
      (toString n ++
        " older messages held back; reading them is " ++
        "optional: attend message inbox")

def Plan.note
    (p : Plan) : Option String :=
  heldBackNote p.notShown

/- Which cap a message counts against. -/
def kindOf
    (w : Window)
    (message : Room × Nat) : Nat :=
  match message.1 with
  | .project => 0
  | room => if w.briefs room message.2 then 1 else 2

/-
  One kind capped at its newest: the oldest of those still
  to be delivered are not.
-/
def capKind
    (w : Window)
    (pending : List (Room × Nat))
    (deliver : List Bool)
    (kind max : Nat) : List Bool :=
  let age := fun i => ((pending[i]?).map Prod.snd).getD 0
  let ofKind :=
    (List.range pending.length).filter
      (fun i =>
        (deliver[i]?).getD false &&
          decide ((pending[i]?).map (kindOf w) = some kind))
  let beyond :=
    (ofKind.insertionSort (fun i j => age i ≤ age j)).drop max
  deliver.mapIdx (fun i d => d && decide (i ∉ beyond))

/- The rule applied to the pending messages. -/
def plan
    (pending : List (Room × Nat))
    (w : Window) : Plan :=
  let deliver :=
    pending.map (fun m => w.reaches m.1 m.2)
  let deliver := capKind w pending deliver 0 addressedMax
  let deliver := capKind w pending deliver 1 addressedMax
  let deliver := capKind w pending deliver 2 roomMax
  { deliver := deliver
    notShown := deliver.countP (fun d => !d) }

end Attend

------------------------------------------------------------
-- One Answer For Each Message
------------------------------------------------------------

namespace Attend

@[simp] theorem length_capKind
    (w : Window)
    (pending : List (Room × Nat))
    (deliver : List Bool)
    (kind max : Nat) :
    (capKind w pending deliver kind max).length =
      deliver.length := by
  simp [capKind]

/- The plan answers for every pending message. -/
theorem length_plan
    (pending : List (Room × Nat))
    (w : Window) :
    (plan pending w).deliver.length = pending.length := by
  simp [plan]

end Attend
