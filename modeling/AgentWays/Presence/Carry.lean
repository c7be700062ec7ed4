import AgentWays.Lib.StepMachine
import AgentWays.Presence.Enrollment

/-
  An enrollment carried to a session's new id.

  `carry_in` reads the old record with no lock, merges it
  into the new one under the lock, and blanks the old one
  under the lock again. Each of the three is one step here,
  and the edits of others fall between them in any order.

  Key definitions include:
    * `Presence.Enrolled.carryIn`
    * `Presence.Carrying`
    * `Presence.CarryMark`
    * `Presence.carryMachine`

  Main declarations:
    * `Presence.final_carry`
    * `Presence.mem_sources_step_of_enrolls`
    * `Presence.mem_sources_step_withdraw`
-/

------------------------------------------------------------
-- The Carry
------------------------------------------------------------

namespace Presence

def Enrolled.carryIn
    (d : Enrolled)
    (old new : String) : Enrolled :=
  match d.readIn old with
  | none => d
  | some source =>
      (d.editIn new (carryRecord old new source)).editIn old
        (fun _ => Record.blank)

/-
  How far the carry has come. A carry that finds no record
  for `old` is done without a write.
-/
inductive CarryPhase where
| unread
| read (source : Record)
| wrote
| done (carried : Bool)
deriving DecidableEq

/- The carry's write to `new` has been made. -/
def CarryPhase.written : CarryPhase → Bool
| .unread => false
| .read _ => false
| .wrote => true
| .done carried => carried

def CarryPhase.isDone : CarryPhase → Bool
| .done _ => true
| _ => false

theorem CarryPhase.eq_done_of_isDone
    {phase : CarryPhase}
    (hDone : phase.isDone = true) :
    ∃ carried, phase = .done carried := by
  cases phase with
  | unread => cases hDone
  | read source => cases hDone
  | wrote => cases hDone
  | done carried => exact ⟨carried, rfl⟩

/- The records beside a carry under way. -/
structure Carrying where
  dir : Enrolled
  phase : CarryPhase
deriving DecidableEq

/- The carry's next read or locked write. -/
def Carrying.advance
    (old new : String)
    (c : Carrying) : Carrying :=
  match c.phase with
  | .unread =>
      match c.dir.readIn old with
      | none => { c with phase := .done false }
      | some source => { c with phase := .read source }
  | .read source =>
      { dir := c.dir.editIn new (carryRecord old new source)
        phase := .wrote }
  | .wrote =>
      { dir := c.dir.editIn old (fun _ => Record.blank)
        phase := .done true }
  | .done _ => c

end Presence

------------------------------------------------------------
-- The Carry Beside Other Edits
------------------------------------------------------------

namespace Presence

/-
  A step of the carry, or an edit another process makes of
  any id: `enroll_in` under its callers, the enrollment of
  an add, or a withdrawal.
-/
inductive CarryMark where
| carry
| enroll (sid : String) (source : Source)
    (host : Option Host) (claude : Option String)
    (runSince : Option Nat) (now : Nat)
| enrollAdded (sid : String) (claude : Option String)
    (now : Nat)
| withdraw (sid : String) (source : Source)
deriving DecidableEq

/- The id and the way that a mark enrolls. -/
def CarryMark.enrolls : CarryMark → Option (String × Source)
| .enroll sid source _ _ _ _ => some (sid, source)
| .enrollAdded sid _ _ => some (sid, .add)
| _ => none

def Carrying.step
    (old new : String)
    (c : Carrying) : CarryMark → Carrying
| .carry => c.advance old new
| .enroll sid source host claude runSince now =>
    { c with
      dir :=
        c.dir.editIn sid
          (enrollRecord source host claude runSince now) }
| .enrollAdded sid claude now =>
    { c with
      dir :=
        c.dir.editIn sid
          (enrollRecord .add none claude none now) }
| .withdraw sid source =>
    { c with dir := c.dir.editIn sid (withdrawRecord source) }

def carryMachine
    (old new : String) :
    StepMachine Carrying CarryMark Unit where
  step c mark := (c.step old new mark, ())

/- With no edit between its steps, the carry is `carry_in`. -/
theorem final_carry
    (old new : String)
    (d : Enrolled) :
    (carryMachine old new).final { dir := d, phase := .unread }
        [.carry, .carry, .carry] =
      { dir := d.carryIn old new
        phase := .done (d.readIn old).isSome } := by
  simp only [StepMachine.final_cons, StepMachine.final_nil,
    carryMachine, Carrying.step, Carrying.advance,
    Enrolled.carryIn]
  cases d.readIn old with
  | none => rfl
  | some source => rfl

end Presence

------------------------------------------------------------
-- The Ways After A Step
------------------------------------------------------------

namespace Presence

variable {old new sid : String} {s : Source} {c : Carrying}

theorem mem_sources_enrollRecord
    {source : Source}
    {host : Option Host}
    {claude : Option String}
    {runSince : Option Nat}
    {now : Nat}
    {r : Record} :
    s ∈ (enrollRecord source host claude runSince now r).sources
      ↔ s ∈ r.sources ∨ s = source := by
  simp only [enrollRecord]
  split
  · rename_i hMem
    constructor
    · exact Or.inl
    · rintro (hOld | rfl)
      · exact hOld
      · exact hMem
  · rw [List.mem_append, List.mem_singleton]

theorem mem_sources_withdrawRecord
    {source : Source}
    {r : Record} :
    s ∈ (withdrawRecord source r).sources ↔
      s ∈ r.sources ∧ s ≠ source := by
  simp [withdrawRecord]

/- The merged record holds the ways of both. -/
theorem mem_sources_carryRecord
    {source r : Record} :
    s ∈ (carryRecord old new source r).sources ↔
      s ∈ r.sources ∨ s ∈ source.sources := by
  simp only [carryRecord]
  generalize r.sources = ways
  induction source.sources generalizing ways with
  | nil => simp
  | cons way rest ih =>
      rw [List.foldl_cons, ih, List.mem_cons]
      split
      · rename_i hMem
        constructor
        · rintro (hWay | hRest)
          · exact Or.inl hWay
          · exact Or.inr (Or.inr hRest)
        · rintro (hWay | rfl | hRest)
          · exact Or.inl hWay
          · exact Or.inl hMem
          · exact Or.inr hRest
      · rw [List.mem_append, List.mem_singleton, or_assoc]

/- The ways of any id after an edit of one. -/
theorem mem_sources_editIn
    {d : Enrolled}
    {sid' : String}
    (edit : Record → Record) :
    s ∈ (d.editIn sid edit).sources sid' ↔
      if sid' = sid then
        s ∈ (edit ((d.readIn sid).getD Record.blank)).sources
      else s ∈ d.sources sid' := by
  split
  · rename_i hSame
    rw [hSame, sources_editIn]
  · rename_i hNe
    rw [sources_editIn_of_ne edit hNe]

theorem mem_sources_editIn_enroll
    {d : Enrolled}
    {sid' : String}
    {way : Source}
    {host : Option Host}
    {claude : Option String}
    {runSince : Option Nat}
    {now : Nat} :
    s ∈ (d.editIn sid
          (enrollRecord way host claude runSince now)).sources
        sid' ↔
      s ∈ d.sources sid' ∨ (sid' = sid ∧ s = way) := by
  rw [mem_sources_editIn]
  split
  · rename_i hSame
    rw [mem_sources_enrollRecord, sources_getD, hSame]
    simp
  · rename_i hNe
    simp [hNe]

/- An enrollment adds its way to its id. -/
theorem mem_sources_step_of_enrolls
    {mark : CarryMark}
    {way : Source}
    (hMark : mark.enrolls = some (sid, way))
    (sid' : String) :
    s ∈ (c.step old new mark).dir.sources sid' ↔
      s ∈ c.dir.sources sid' ∨ (sid' = sid ∧ s = way) := by
  cases mark with
  | carry => cases hMark
  | withdraw other source => cases hMark
  | enroll other source host claude runSince now =>
      cases hMark
      exact mem_sources_editIn_enroll
  | enrollAdded other claude now =>
      cases hMark
      exact mem_sources_editIn_enroll

/- A withdrawal takes its way from its id. -/
theorem mem_sources_step_withdraw
    (sid : String)
    (way : Source)
    (sid' : String) :
    s ∈ (c.step old new (.withdraw sid way)).dir.sources sid' ↔
      s ∈ c.dir.sources sid' ∧ ¬ (sid' = sid ∧ s = way) := by
  rw [Carrying.step, mem_sources_editIn]
  split
  · rename_i hSame
    rw [mem_sources_withdrawRecord, sources_getD, hSame]
    simp
  · rename_i hNe
    simp [hNe]

/- A step of the carry, an enrollment or a withdrawal. -/
theorem CarryMark.kinds
    (mark : CarryMark) :
    mark = .carry ∨
      (∃ sid way, mark.enrolls = some (sid, way)) ∨
        ∃ sid way, mark = .withdraw sid way := by
  cases mark with
  | carry => exact Or.inl rfl
  | enroll sid source host claude runSince now =>
      exact Or.inr (Or.inl ⟨sid, source, rfl⟩)
  | enrollAdded sid claude now =>
      exact Or.inr (Or.inl ⟨sid, .add, rfl⟩)
  | withdraw sid source =>
      exact Or.inr (Or.inr ⟨sid, source, rfl⟩)

/- No enrollment moves the carry on. -/
theorem phase_step_of_enrolls
    {mark : CarryMark}
    {way : Source}
    (hMark : mark.enrolls = some (sid, way)) :
    (c.step old new mark).phase = c.phase := by
  cases mark with
  | carry => cases hMark
  | enroll sid source host claude runSince now => rfl
  | enrollAdded sid claude now => rfl
  | withdraw sid source => cases hMark

end Presence
