import AgentWays.Membership.MoveSpec

/-
  The move of a session, stopped anywhere and run again.

  A resumed move gives what one uninterrupted move gives,
  and so does a move made twice, exactly where the carry of
  the enrollment has room for the earlier ids it pushes. The
  registry's time is that of the move that wrote it.

  Key definitions include:
    * `Membership.AtPoint`
    * `Membership.OnTheWay`
    * `Membership.Resumable`

  Main declarations:
    * `Membership.onTheWay_step`
    * `Membership.moveStep_reaches`
    * `Membership.move_resumes_iff`
    * `Membership.move_resumes_full`
-/

------------------------------------------------------------
-- The Property
------------------------------------------------------------

namespace Membership

open Attend
open Presence

/-
  From the state left by a move that stopped after any
  number of steps, a move to the end gives what one move
  gives, at the time of the one of the two that wrote the
  registry; and so does a second move after a whole one.
-/
def Resumable
    (old new : String)
    (start : Bus) : Prop :=
  (∀ now now' n,
      ∃ t, (t = now ∨ t = now') ∧
        moveSession old new now'
            (stoppedAfter old new now n start) =
          moveSession old new t start) ∧
    ∀ now now',
      moveSession old new now' (moveSession old new now start) =
        moveSession old new now start

end Membership

------------------------------------------------------------
-- Points Of The Move
------------------------------------------------------------

namespace Membership

open Attend
open Presence

/- The move has written the registry. -/
def MovePoint.renamed : MovePoint → Bool
| .load => false
| .checkpoint _ => false
| .clear => false
| .read => false
| .writeNew _ => false
| .indexNew _ => false
| .blankOld => false
| .rename => false
| .roster => true
| .records _ => true
| .lastInbound => true
| .banner => true
| .heartbeat => true
| .done => true

/- What holds of the stores at each point. -/
def AtPoint
    (old new : String)
    (b : Bus) : MovePoint → Prop
| .load => Roomy old new b.enrolled
| .checkpoint snapshot =>
    Roomy old new b.enrolled ∧
      b.seen.get? old = some snapshot
| .clear =>
    Roomy old new b.enrolled ∧
      ∃ snapshot,
        b.seen.get? old = some snapshot ∧
          b.checkpoint new snapshot = b
| .read =>
    Roomy old new b.enrolled ∧ b.seen.get? old = none
| .writeNew source =>
    Roomy old new b.enrolled ∧ b.seen.get? old = none ∧
      b.enrolled.readIn old = some source
| .indexNew record =>
    b.seen.get? old = none ∧
      ∃ source,
        b.enrolled.readIn old = some source ∧
          b.enrolled.readIn new = record.kept ∧
          SameWrite new
            (carryRecord old new source
              (record.kept.getD Record.blank))
            record
| .blankOld =>
    b.seen.get? old = none ∧
      ∃ source,
        b.enrolled.readIn old = some source ∧
          b.enrolled.editIn new (carryRecord old new source) =
            b.enrolled
| .records left =>
    b.seen.get? old = none ∧
      ∀ place ∈ left, place ∈ b.channels.records
| _ => b.seen.get? old = none

/-
  A move from here gives what a move from the start gives,
  with the registry's time once it has been written.
-/
structure OnTheWay
    (old new : String)
    (now : Nat)
    (start : Bus)
    (x : Bus × MovePoint) : Prop where
  point : AtPoint old new x.1 x.2
  resumes :
    ∀ t,
      moveSession old new t x.1 =
        moveSession old new
          (if x.2.renamed then now else t) start

variable {old new : String} {now : Nat} {start b : Bus}

/-
  A move from `b'` gives what a move from `b` gives, where
  each store does: the seen-set has been moved in both.
-/
theorem moveSession_absorbs
    {b' : Bus}
    {t t' : Nat}
    (hOld : b.seen.get? old = none)
    (hSeen : b'.seen = b.seen)
    (hEnrolled :
      b'.enrolled.carryIn old new =
        b.enrolled.carryIn old new)
    (hInstances :
      Instances.rename old new t b'.instances =
        Instances.rename old new t' b.instances)
    (hChannels :
      b'.channels.renameMember old new =
        b.channels.renameMember old new)
    (hTrays : b'.trays = b.trays)
    (hInbound :
      moveFile old new b'.lastInbound =
        moveFile old new b.lastInbound)
    (hBanner :
      moveFile old new b'.banner = moveFile old new b.banner)
    (hHeartbeats :
      b'.heartbeats.erase old = b.heartbeats.erase old) :
    moveSession old new t b' = moveSession old new t' b := by
  have hOld' : b'.seen.get? old = none := by
    rw [hSeen]
    exact hOld
  rw [moveSession_of_seen hOld, moveSession_of_seen hOld',
    hSeen, hEnrolled, hInstances, hChannels, hTrays, hInbound,
    hBanner, hHeartbeats]

theorem onTheWay_load
    (hWay : OnTheWay old new now start (b, .load)) :
    OnTheWay old new now start
      (moveStep old new now (b, .load)) := by
  have hRoomy : Roomy old new b.enrolled := hWay.point
  cases hSeen : b.seen.get? old with
  | none =>
      have hStep :
          moveStep old new now (b, .load) = (b, .read) := by
        simp only [moveStep, hSeen]
      rw [hStep]
      exact ⟨⟨hRoomy, hSeen⟩, hWay.resumes⟩
  | some snapshot =>
      have hStep :
          moveStep old new now (b, .load) =
            (b, .checkpoint snapshot) := by
        simp only [moveStep, hSeen]
      rw [hStep]
      exact ⟨⟨hRoomy, hSeen⟩, hWay.resumes⟩

/- The union is made once more by a move from here. -/
theorem onTheWay_checkpoint
    {snapshot : StateSnapshot}
    (hNe : old ≠ new)
    (hWay :
      OnTheWay old new now start (b, .checkpoint snapshot)) :
    OnTheWay old new now start
      (moveStep old new now (b, .checkpoint snapshot)) := by
  rcases hWay.point with ⟨hRoomy, hSeen⟩
  have hStill :
      (b.checkpoint new snapshot).seen.get? old =
        some snapshot := by
    rw [Bus.checkpoint, KeyMap.get?_insert, if_neg hNe]
    exact hSeen
  refine ⟨⟨hRoomy, snapshot, hStill,
    checkpoint_checkpoint new snapshot b⟩, ?_⟩
  intro t
  refine Eq.trans ?_ (hWay.resumes t)
  change
    moveSession old new t (b.checkpoint new snapshot) =
      moveSession old new t b
  rw [moveSession_eq, moveSession_eq, moveSeen_of_some hSeen,
    moveSeen_of_some hStill, checkpoint_checkpoint]
  rfl

theorem onTheWay_clear
    (hWay : OnTheWay old new now start (b, .clear)) :
    OnTheWay old new now start
      (moveStep old new now (b, .clear)) := by
  rcases hWay.point with
    ⟨hRoomy, snapshot, hSeen, hMerged⟩
  have hCleared : (b.clear old).seen.get? old = none := by
    rw [Bus.clear, KeyMap.get?_erase, if_pos rfl]
  refine ⟨⟨hRoomy, hCleared⟩, ?_⟩
  intro t
  refine Eq.trans ?_ (hWay.resumes t)
  change
    moveSession old new t (b.clear old) =
      moveSession old new t b
  rw [moveSession_of_seen hCleared, moveSession_eq,
    moveSeen_of_some hSeen, hMerged]
  rfl

theorem onTheWay_read
    (hWay : OnTheWay old new now start (b, .read)) :
    OnTheWay old new now start
      (moveStep old new now (b, .read)) := by
  rcases hWay.point with ⟨hRoomy, hSeen⟩
  cases hRead : b.enrolled.readIn old with
  | none =>
      have hStep :
          moveStep old new now (b, .read) = (b, .rename) := by
        simp only [moveStep, hRead]
      rw [hStep]
      exact ⟨hSeen, hWay.resumes⟩
  | some source =>
      have hStep :
          moveStep old new now (b, .read) =
            (b, .writeNew source) := by
        simp only [moveStep, hRead]
      rw [hStep]
      exact ⟨⟨hRoomy, hSeen, hRead⟩, hWay.resumes⟩

/- The record that the carry has written merges as it is. -/
theorem onTheWay_writeNew
    {source : Record}
    (hNe : old ≠ new)
    (hWay :
      OnTheWay old new now start (b, .writeNew source)) :
    OnTheWay old new now start
      (moveStep old new now (b, .writeNew source)) := by
  rcases hWay.point with ⟨hRoomy, hSeen, hRead⟩
  have hSame := sameWrite_again hRead hRoomy
  have hRead' :
      (b.enrolled.recordIn new
        (carryRecord old new source
          ((b.enrolled.readIn new).getD Record.blank))).readIn
          old = some source := by
    rw [readIn_recordIn_of_ne _ hNe]
    exact hRead
  have hNew :=
    readIn_recordIn b.enrolled new
      (carryRecord old new source
        ((b.enrolled.readIn new).getD Record.blank))
  refine ⟨⟨hSeen, source, hRead', hNew, hSame⟩, ?_⟩
  intro t
  refine Eq.trans ?_ (hWay.resumes t)
  refine moveSession_absorbs hSeen rfl ?_ rfl rfl rfl rfl rfl
    rfl
  change
    (b.enrolled.recordIn new
        (carryRecord old new source
          ((b.enrolled.readIn new).getD
            Record.blank))).carryIn old new =
      b.enrolled.carryIn old new
  rw [carryIn_of_some hRead', carryIn_of_some hRead,
    editIn_carryRecord_again hNew hSame]
  rfl

theorem onTheWay_indexNew
    {record : Record}
    (hWay :
      OnTheWay old new now start (b, .indexNew record)) :
    OnTheWay old new now start
      (moveStep old new now (b, .indexNew record)) := by
  rcases hWay.point with
    ⟨hSeen, source, hRead, hNew, hSame⟩
  have hRead' :
      (b.enrolled.indexIn new record).readIn old =
        some source := by
    rw [readIn_indexIn]
    exact hRead
  have hNew' :
      (b.enrolled.indexIn new record).readIn new =
        record.kept := by
    rw [readIn_indexIn]
    exact hNew
  have hSettled :
      (b.enrolled.indexIn new record).editIn new
          (carryRecord old new source) =
        b.enrolled.indexIn new record := by
    rw [editIn_carryRecord_again hNew' hSame, indexIn_indexIn]
  refine ⟨⟨hSeen, source, hRead', hSettled⟩, ?_⟩
  intro t
  refine Eq.trans ?_ (hWay.resumes t)
  refine moveSession_absorbs hSeen rfl ?_ rfl rfl rfl rfl rfl
    rfl
  change
    (b.enrolled.indexIn new record).carryIn old new =
      b.enrolled.carryIn old new
  rw [carryIn_of_some hRead', carryIn_of_some hRead,
    editIn_carryRecord_again hNew hSame, hSettled]

theorem onTheWay_blankOld
    (hWay : OnTheWay old new now start (b, .blankOld)) :
    OnTheWay old new now start
      (moveStep old new now (b, .blankOld)) := by
  rcases hWay.point with ⟨hSeen, source, hRead, hSettled⟩
  refine ⟨hSeen, ?_⟩
  intro t
  refine Eq.trans ?_ (hWay.resumes t)
  refine moveSession_absorbs hSeen rfl ?_ rfl rfl rfl rfl rfl
    rfl
  change
    (b.enrolled.editIn old (fun _ => Record.blank)).carryIn old
        new =
      b.enrolled.carryIn old new
  rw [carryIn_of_none (readIn_editIn_blank b.enrolled old),
    carryIn_of_some hRead, hSettled]

/- From here on the registry has the time of this move. -/
theorem onTheWay_rename
    (hNe : old ≠ new)
    (hWay : OnTheWay old new now start (b, .rename)) :
    OnTheWay old new now start
      (moveStep old new now (b, .rename)) := by
  have hSeen : b.seen.get? old = none := hWay.point
  refine ⟨hSeen, ?_⟩
  intro t
  refine Eq.trans ?_ (hWay.resumes now)
  exact moveSession_absorbs hSeen rfl rfl
    (Instances.rename_rename hNe now t b.instances) rfl rfl
    rfl rfl rfl

theorem onTheWay_roster
    (hNe : old ≠ new)
    (hWay : OnTheWay old new now start (b, .roster)) :
    OnTheWay old new now start
      (moveStep old new now (b, .roster)) := by
  have hSeen : b.seen.get? old = none := hWay.point
  refine ⟨⟨hSeen, fun _ hMem => hMem⟩, ?_⟩
  intro t
  refine Eq.trans ?_ (hWay.resumes t)
  exact moveSession_absorbs hSeen rfl rfl rfl
    (renameMember_renameRoster hNe b.channels) rfl rfl rfl rfl

theorem onTheWay_records
    {left : List (String × RecordKind)}
    (hNe : old ≠ new)
    (hWay : OnTheWay old new now start (b, .records left)) :
    OnTheWay old new now start
      (moveStep old new now (b, .records left)) := by
  rcases hWay.point with ⟨hSeen, hLeft⟩
  cases left with
  | nil => exact ⟨hSeen, hWay.resumes⟩
  | cons first rest =>
      refine ⟨⟨hSeen, ?_⟩, ?_⟩
      · intro place hMem
        change
          place ∈ (b.channels.moveRecord old new first).records
        rw [records_moveRecord]
        exact hLeft place (List.mem_cons_of_mem _ hMem)
      · intro t
        refine Eq.trans ?_ (hWay.resumes t)
        exact moveSession_absorbs hSeen rfl rfl rfl
          (renameMember_moveRecord hNe b.channels
            (hLeft first List.mem_cons_self)) rfl rfl rfl rfl

theorem onTheWay_lastInbound
    (hNe : old ≠ new)
    (hWay : OnTheWay old new now start (b, .lastInbound)) :
    OnTheWay old new now start
      (moveStep old new now (b, .lastInbound)) := by
  have hSeen : b.seen.get? old = none := hWay.point
  refine ⟨hSeen, ?_⟩
  intro t
  refine Eq.trans ?_ (hWay.resumes t)
  exact moveSession_absorbs hSeen rfl rfl rfl rfl rfl
    (moveFile_moveFile hNe b.lastInbound) rfl rfl

theorem onTheWay_banner
    (hNe : old ≠ new)
    (hWay : OnTheWay old new now start (b, .banner)) :
    OnTheWay old new now start
      (moveStep old new now (b, .banner)) := by
  have hSeen : b.seen.get? old = none := hWay.point
  refine ⟨hSeen, ?_⟩
  intro t
  refine Eq.trans ?_ (hWay.resumes t)
  exact moveSession_absorbs hSeen rfl rfl rfl rfl rfl rfl
    (moveFile_moveFile hNe b.banner) rfl

theorem onTheWay_heartbeat
    (hWay : OnTheWay old new now start (b, .heartbeat)) :
    OnTheWay old new now start
      (moveStep old new now (b, .heartbeat)) := by
  have hSeen : b.seen.get? old = none := hWay.point
  refine ⟨hSeen, ?_⟩
  intro t
  refine Eq.trans ?_ (hWay.resumes t)
  exact moveSession_absorbs hSeen rfl rfl rfl rfl rfl rfl rfl
    Finset.erase_idem

theorem onTheWay_step
    (hNe : old ≠ new)
    {x : Bus × MovePoint}
    (hWay : OnTheWay old new now start x) :
    OnTheWay old new now start (moveStep old new now x) := by
  rcases x with ⟨b, point⟩
  cases point with
  | load => exact onTheWay_load hWay
  | checkpoint snapshot => exact onTheWay_checkpoint hNe hWay
  | clear => exact onTheWay_clear hWay
  | read => exact onTheWay_read hWay
  | writeNew source => exact onTheWay_writeNew hNe hWay
  | indexNew record => exact onTheWay_indexNew hWay
  | blankOld => exact onTheWay_blankOld hWay
  | rename => exact onTheWay_rename hNe hWay
  | roster => exact onTheWay_roster hNe hWay
  | records left => exact onTheWay_records hNe hWay
  | lastInbound => exact onTheWay_lastInbound hNe hWay
  | banner => exact onTheWay_banner hNe hWay
  | heartbeat => exact onTheWay_heartbeat hWay
  | done => exact hWay

end Membership

------------------------------------------------------------
-- The Move To Its End
------------------------------------------------------------

namespace Membership

open Attend
open Presence
open Resume

variable {old new : String} {now : Nat}

theorem reaches_read
    (b : Bus) :
    Reaches (moveStep old new now) (b, .load)
      (b.moveSeen old new, .read) := by
  cases hSeen : b.seen.get? old with
  | none =>
      rw [moveSeen_of_none hSeen]
      refine Reaches.head ?_ (Reaches.refl _ _)
      simp only [moveStep, hSeen]
  | some snapshot =>
      rw [moveSeen_of_some hSeen]
      refine Reaches.head (y := (b, .checkpoint snapshot)) ?_ ?_
      · simp only [moveStep, hSeen]
      · refine Reaches.head rfl ?_
        exact Reaches.head rfl (Reaches.refl _ _)

theorem reaches_rename
    (b : Bus) :
    Reaches (moveStep old new now) (b, .read)
      ({ b with enrolled := b.enrolled.carryIn old new },
        .rename) := by
  cases hRead : b.enrolled.readIn old with
  | none =>
      rw [carryIn_of_none hRead]
      refine Reaches.head ?_ (Reaches.refl _ _)
      simp only [moveStep, hRead]
  | some source =>
      rw [carryIn_of_some hRead]
      refine Reaches.head (y := (b, .writeNew source)) ?_ ?_
      · simp only [moveStep, hRead]
      · refine Reaches.head rfl ?_
        refine Reaches.head rfl ?_
        exact Reaches.head rfl (Reaches.refl _ _)

theorem reaches_lastInbound
    (left : List (String × RecordKind))
    (b : Bus) :
    Reaches (moveStep old new now) (b, .records left)
      ({ b with
          channels :=
            left.foldl (Channels.moveRecord old new)
              b.channels },
        .lastInbound) := by
  induction left generalizing b with
  | nil => exact Reaches.head rfl (Reaches.refl _ _)
  | cons first rest ih =>
      exact Reaches.head rfl
        (ih { b with
          channels := b.channels.moveRecord old new first })

/- Step by step, the move comes to what the whole move is. -/
theorem moveStep_reaches
    (old new : String)
    (now : Nat)
    (b : Bus) :
    Reaches (moveStep old new now) (b, .load)
      (moveSession old new now b, .done) := by
  refine (reaches_read b).trans ?_
  refine (reaches_rename (b.moveSeen old new)).trans ?_
  refine Reaches.head rfl ?_
  refine Reaches.head rfl ?_
  refine (reaches_lastInbound _ _).trans ?_
  refine Reaches.head rfl ?_
  refine Reaches.head rfl ?_
  exact Reaches.head rfl (Reaches.refl _ _)

end Membership

------------------------------------------------------------
-- Every Stop
------------------------------------------------------------

namespace Membership

open Attend
open Presence

variable {old new : String} {start : Bus}

theorem onTheWay_iterate
    (hNe : old ≠ new)
    (hRoomy : Roomy old new start.enrolled)
    (now n : Nat) :
    OnTheWay old new now start
      ((moveStep old new now)^[n] (start, .load)) := by
  have hStart : OnTheWay old new now start (start, .load) :=
    ⟨hRoomy, fun _ => rfl⟩
  exact Function.Iterate.rec (OnTheWay old new now start)
    hStart (fun _ hWay => onTheWay_step hNe hWay) n

theorem resumable_of_roomy
    (hNe : old ≠ new)
    (hRoomy : Roomy old new start.enrolled) :
    Resumable old new start := by
  refine ⟨?_, ?_⟩
  · intro now now' n
    have hWay := onTheWay_iterate hNe hRoomy now n
    refine ⟨_, ?_, hWay.resumes now'⟩
    split
    · exact Or.inl rfl
    · exact Or.inr rfl
  · intro now now'
    rcases moveStep_reaches old new now start with ⟨n, hDone⟩
    have hWay := onTheWay_iterate hNe hRoomy now n
    rw [hDone] at hWay
    exact hWay.resumes now'

/-
  A move stopped after it wrote the new record, where there
  is no room, does not resume.
-/
theorem roomy_of_resumable
    (hNe : old ≠ new)
    (hResumable : Resumable old new start) :
    Roomy old new start.enrolled := by
  by_contra hFull
  rcases carryIn_recordIn_ne hNe hFull with
    ⟨source, hRead, hDiffers⟩
  have hSeen :
      (start.moveSeen old new).enrolled = start.enrolled := by
    unfold Bus.moveSeen
    split <;> rfl
  have hReach :
      Resume.Reaches (moveStep old new 0) (start, .load)
        (moveStep old new 0
          (start.moveSeen old new, .writeNew source)) := by
    refine (reaches_read start).trans ?_
    refine Resume.Reaches.head
      (y := (start.moveSeen old new, .writeNew source)) ?_
      (Resume.Reaches.head rfl (Resume.Reaches.refl _ _))
    simp only [moveStep, hSeen, hRead]
  rcases hReach with ⟨n, hStopped⟩
  rcases hResumable.1 0 0 n with ⟨t, -, hSame⟩
  rw [stoppedAfter, hStopped, moveSession_eq,
    moveSession_eq] at hSame
  have hEnrolled := congrArg Bus.enrolled hSame
  simp only [moveStep, hSeen] at hEnrolled
  exact hDiffers hEnrolled

/-
  A move stopped anywhere and run again to its end gives
  what one move gives, and a second move changes nothing,
  exactly when the carry has room for the earlier ids.
-/
theorem move_resumes_iff
    (old new : String)
    (start : Bus)
    (hNe : old ≠ new) :
    Resumable old new start ↔
      Roomy old new start.enrolled :=
  ⟨roomy_of_resumable hNe, resumable_of_roomy hNe⟩

/- A bus with one session, enrolled with its earlier ids. -/
def enrolledBus
    (previous : List String) : Bus where
  seen := KeyMap.empty
  enrolled :=
    { records :=
        KeyMap.empty.insert "old"
          { Record.blank with
            sources := [.join]
            previous := previous }
      index := KeyMap.empty }
  instances := KeyMap.empty
  channels := { roster := KeyMap.empty, dirs := KeyMap.empty }
  trays := none
  lastInbound := KeyMap.empty
  banner := KeyMap.empty
  heartbeats := ∅

/- A session with one earlier id moves in any number of goes. -/
theorem move_resumes_iff_one :
    "old" ≠ "new" ∧
      Resumable "old" "new" (enrolledBus ["first"]) := by
  refine ⟨by decide, ?_⟩
  refine (move_resumes_iff "old" "new" (enrolledBus ["first"])
    (by decide)).mpr ?_
  intro source hRead
  have hSource :
      (enrolledBus ["first"]).enrolled.readIn "old" =
        some
          { Record.blank with
            sources := [.join]
            previous := ["first"] } := by
    decide
  rw [hSource, Option.some.injEq] at hRead
  subst hRead
  refine Or.inr ?_
  decide

/-
  With eight earlier ids, a move stopped after it wrote the
  new record brings the oldest back as the latest.
-/
theorem move_resumes_full :
    ¬ Resumable "old" "new"
        (enrolledBus
          ["a", "b", "c", "d", "e", "f", "g", "h"]) := by
  intro hResumable
  rcases hResumable.1 0 0 3 with ⟨t, -, hSame⟩
  rw [moveSession_eq, moveSession_eq] at hSame
  have hEnrolled := congrArg Bus.enrolled hSame
  revert hEnrolled
  dsimp only
  decide

end Membership
