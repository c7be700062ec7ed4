import Mathlib.Data.Rat.Defs
import Mathlib.Data.List.Basic

/-
  When a way may fire again: its engagement state, and the
  decision that is made of it at a token position.

  A flat curve is loud for as many ticks as it suppresses.

  Key definitions include:
    * `Engage.Curve.salienceAt`
    * `Engage.EngagementState`
    * `Engage.loadEngagementForTick`
    * `Engage.wayFireOutcome`
    * `Engage.recordWayFire`
-/

------------------------------------------------------------
-- States
------------------------------------------------------------

namespace Engage

/- How long a fire stays loud. -/
inductive Curve
| flat (suppression : Nat)
deriving DecidableEq

def Curve.salienceAt
    (curve : Curve)
    (delta : Nat) : Rat :=
  match curve with
  | .flat suppression => if delta < suppression then 1 else 0

/- A way's curve, the fires it recalls and the last of them. -/
structure EngagementState where
  curve : Curve
  history : List (Nat × Rat)
  lastFire : Option Nat
deriving DecidableEq

namespace EngagementState

def new
    (curve : Curve) : EngagementState where
  curve := curve
  history := []
  lastFire := none

/- A flat curve recalls its most recent fire alone. -/
def pruneDecayed
    (state : EngagementState) : EngagementState :=
  match state.curve with
  | .flat _ =>
      { state with
        history :=
          state.history.drop (state.history.length - 1) }

def recordFire
    (state : EngagementState)
    (tick : Nat)
    (magnitude : Rat) : EngagementState :=
  pruneDecayed
    { state with
      history := state.history ++ [(tick, magnitude)]
      lastFire := some tick }

/- How loud the last fire is. Ticks do not go below zero. -/
def currentSalience
    (state : EngagementState)
    (tick : Nat) : Rat :=
  match state.lastFire with
  | none => 0
  | some last => state.curve.salienceAt (tick - last)

def setCurve
    (state : EngagementState)
    (curve : Curve) : EngagementState :=
  { state with curve := curve }

end EngagementState

end Engage

------------------------------------------------------------
-- Decisions
------------------------------------------------------------

namespace Engage

/- Below this a way may fire again. -/
def refireFloor : Rat := 1 / 2

inductive FireOutcome
| firstFire
| reFire
| suppressed
deriving DecidableEq

def FireOutcome.isAllowed : FireOutcome → Bool
| .firstFire => true
| .reFire => true
| .suppressed => false

structure FireDecision where
  outcome : FireOutcome
  lastFire : Option Nat
deriving DecidableEq

/- A way's state file: nothing, where none can be read. -/
abbrev File := Option EngagementState

/- The state read from a file takes the caller's curve. -/
def loadEngagement
    (file : File)
    (curve : Curve) : EngagementState :=
  match file with
  | some state => state.setCurve curve
  | none => .new curve

/- A fire ahead of the tick is taken for stale, and dropped. -/
def loadEngagementForTick
    (file : File)
    (curve : Curve)
    (tick : Nat) : EngagementState :=
  let state := loadEngagement file curve
  match state.lastFire with
  | some last => if tick < last then .new curve else state
  | none => state

def classifyOutcome
    (state : EngagementState)
    (tick : Nat) : FireOutcome :=
  if state.lastFire.isNone then .firstFire
  else if state.currentSalience tick < refireFloor then .reFire
  else .suppressed

/- Whether a way may fire at a tick. -/
def wayFireOutcome
    (file : File)
    (curve : Curve)
    (tick : Nat) : FireDecision :=
  let state := loadEngagementForTick file curve tick
  { outcome := classifyOutcome state tick
    lastFire := state.lastFire }

/- The file once a fire at a tick is recorded. -/
def recordWayFire
    (file : File)
    (curve : Curve)
    (tick : Nat) : File :=
  some ((loadEngagementForTick file curve tick).recordFire tick 1)

end Engage

------------------------------------------------------------
-- What A Decision Tells
------------------------------------------------------------

namespace Engage

variable {file : File} {curve : Curve} {tick : Nat}

/- The last fire that a file holds. -/
def lastFire
    (file : File) : Option Nat :=
  file.bind EngagementState.lastFire

@[simp] theorem lastFire_loadEngagement :
    (loadEngagement file curve).lastFire = lastFire file := by
  cases file <;> rfl

@[simp] theorem curve_loadEngagement :
    (loadEngagement file curve).curve = curve := by
  cases file <;> rfl

@[simp] theorem lastFire_recordWayFire :
    lastFire (recordWayFire file curve tick) = some tick := by
  unfold recordWayFire lastFire EngagementState.recordFire
  cases (loadEngagementForTick file curve tick).curve
  rfl

/- A tick that has reached the last fire finds it recorded. -/
theorem loadEngagementForTick_of_le
    (hReached :
      ∀ last, lastFire file = some last → last ≤ tick) :
    loadEngagementForTick file curve tick =
      loadEngagement file curve := by
  unfold loadEngagementForTick
  simp only [lastFire_loadEngagement]
  cases hLast : lastFire file with
  | none => rfl
  | some last =>
      have hLe := hReached last hLast
      simp only
      rw [if_neg (by omega)]

theorem salienceAt_flat
    {suppression delta : Nat} :
    (Curve.flat suppression).salienceAt delta < refireFloor ↔
      suppression ≤ delta := by
  have hLoud : ¬ (1 : Rat) < refireFloor := by decide +kernel
  have hFaded : (0 : Rat) < refireFloor := by decide +kernel
  unfold Curve.salienceAt
  by_cases hDelta : delta < suppression
  · simp only [if_pos hDelta, hLoud, false_iff]
    omega
  · simp only [if_neg hDelta, hFaded, true_iff]
    omega

/- A way may fire that has not, or whose fire has faded. -/
theorem isAllowed_classifyOutcome
    {state : EngagementState} :
    (classifyOutcome state tick).isAllowed = true ↔
      ∀ last, state.lastFire = some last →
        state.curve.salienceAt (tick - last) < refireFloor := by
  unfold classifyOutcome EngagementState.currentSalience
  cases hLast : state.lastFire with
  | none => simp [FireOutcome.isAllowed]
  | some last =>
      simp only [Option.isNone_some, Bool.false_eq_true,
        if_false, Option.some.injEq, forall_eq']
      split
      · rename_i hFaded
        exact ⟨fun _ => hFaded, fun _ => rfl⟩
      · rename_i hLoud
        constructor
        · intro hFalse
          cases hFalse
        · intro hFaded
          exact absurd hFaded hLoud

/-
  Under a flat curve a tick that has reached the last fire
  may fire again once the whole suppression has passed.
-/
theorem isAllowed_flat
    {suppression : Nat}
    (hReached :
      ∀ last, lastFire file = some last → last ≤ tick) :
    (wayFireOutcome file (.flat suppression)
        tick).outcome.isAllowed = true ↔
      ∀ last, lastFire file = some last →
        last + suppression ≤ tick := by
  unfold wayFireOutcome
  rw [loadEngagementForTick_of_le hReached]
  simp only [isAllowed_classifyOutcome,
    lastFire_loadEngagement, curve_loadEngagement,
    salienceAt_flat]
  constructor
  · intro hFaded last hLast
    have hPast := hFaded last hLast
    have hLe := hReached last hLast
    omega
  · intro hPast last hLast
    have hLe := hPast last hLast
    omega

end Engage
