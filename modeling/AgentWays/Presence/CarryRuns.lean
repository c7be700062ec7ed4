import AgentWays.Presence.Carry

/-
  What a carry loses and revives, over any interleaving.

  Where no edit changes the old record between the carry's
  read and its write, or enrolls the old id before it is
  blanked by a way the new one lacks, every way is recorded
  for one of the two ids, and no way withdrawn before the
  write comes back. Where no edit after the carry enrolls
  one id by a way of the other, they share none.

  Key definitions include:
    * `Presence.Calm`
    * `Presence.Owed`
    * `Presence.WithdrawnFirst`

  Main declarations:
    * `Presence.held_step`
    * `Presence.gone_step`
    * `Presence.apart_step`
    * `Presence.carry_run`
    * `Presence.carry_run_between`
-/

------------------------------------------------------------
-- The Property
------------------------------------------------------------

namespace Presence

/- The way withdrawn: from `old`, or from `new` after the
   carry has written it there. -/
def Drops
    (old new : String)
    (s : Source)
    (c : Carrying)
    (mark : CarryMark) : Prop :=
  mark = .withdraw old s ∨
    (mark = .withdraw new s ∧ c.phase.written = true)

/- The way enrolled again: for `new`, or for `old` before
   the carry has written. -/
def Renews
    (old new : String)
    (s : Source)
    (c : Carrying)
    (mark : CarryMark) : Prop :=
  mark.enrolls = some (new, s) ∨
    (mark.enrolls = some (old, s) ∧ c.phase.written = false)

/-
  A way that was recorded for `old` at the start, or that an
  edit recorded for it, and that no later step withdrew.
-/
def Owed
    (old new : String)
    (start : Carrying)
    (marks : List CarryMark)
    (s : Source) : Prop :=
  (s ∈ start.dir.sources old ∧
      ∀ t ∈ (carryMachine old new).trace start marks,
        ¬ Drops old new s t.before t.input) ∨
    ∃ first mark second,
      marks = first ++ mark :: second ∧
        mark.enrolls = some (old, s) ∧
        ∀ t ∈ (carryMachine old new).trace
            ((carryMachine old new).final start
              (first ++ [mark])) second,
          ¬ Drops old new s t.before t.input

/-
  A way that was withdrawn from `old` before the carry's
  write to `new`, that `new` did not have then and that no
  later edit enrolled again.
-/
def WithdrawnFirst
    (old new : String)
    (start : Carrying)
    (marks : List CarryMark)
    (s : Source) : Prop :=
  ∃ first second,
    marks = first ++ .withdraw old s :: second ∧
      ((carryMachine old new).final start
        first).phase.written = false ∧
      s ∉ ((carryMachine old new).final start
        first).dir.sources new ∧
      ∀ t ∈ (carryMachine old new).trace
          ((carryMachine old new).final start
            (first ++ [.withdraw old s])) second,
        ¬ Renews old new s t.before t.input

/-
  The edits beside the carry. Between its read and its write
  none changes the ways of `old`; from the write until `old`
  is blanked none enrolls `old` by a way that `new` lacks;
  and after that none enrolls either by a way of the other.
-/
def Calm
    (old new : String)
    (c : Carrying)
    (mark : CarryMark) : Prop :=
  match c.phase with
  | .unread => True
  | .read _ =>
      ∀ s,
        (mark.enrolls = some (old, s) → s ∈ c.dir.sources old) ∧
          (mark = .withdraw old s → s ∉ c.dir.sources old)
  | .wrote =>
      ∀ s, mark.enrolls = some (old, s) → s ∈ c.dir.sources new
  | .done _ =>
      ∀ s,
        (mark.enrolls = some (old, s) → s ∉ c.dir.sources new) ∧
          (mark.enrolls = some (new, s) →
            s ∉ c.dir.sources old)

end Presence

------------------------------------------------------------
-- Step Invariants
------------------------------------------------------------

namespace Presence

/- What the carry has read is what `old` still records. -/
def ReadsOld
    (old : String)
    (c : Carrying) : Prop :=
  ∀ source, c.phase = .read source →
    ∀ s, s ∈ source.sources ↔ s ∈ c.dir.sources old

/- Where an owed way is recorded, at each point. -/
def Held
    (old new : String)
    (s : Source)
    (c : Carrying) : Prop :=
  match c.phase with
  | .unread => s ∈ c.dir.sources old
  | .read _ => s ∈ c.dir.sources old
  | .wrote => s ∈ c.dir.sources new
  | .done true => s ∈ c.dir.sources new ∨ s ∈ c.dir.sources old
  | .done false => s ∈ c.dir.sources old

/- Nothing is left that could bring the way back. -/
def Gone
    (old new : String)
    (s : Source)
    (c : Carrying) : Prop :=
  s ∉ c.dir.sources new ∧
    (c.phase.written = false → s ∉ c.dir.sources old)

/- A finished carry leaves the two ids no way in common. -/
def Apart
    (old new : String)
    (c : Carrying) : Prop :=
  c.phase.isDone = true →
    ∀ s, ¬ (s ∈ c.dir.sources old ∧ s ∈ c.dir.sources new)

variable {old new : String} {s : Source} {c : Carrying}
variable {mark : CarryMark}

theorem sources_of_readIn
    {d : Enrolled}
    {source : Record}
    (hRead : d.readIn old = some source) :
    d.sources old = source.sources := by
  rw [Enrolled.sources, hRead]
  rfl

theorem sources_of_readIn_none
    {d : Enrolled}
    (hRead : d.readIn old = none) :
    d.sources old = [] := by
  rw [Enrolled.sources, hRead]
  rfl

/- The ways of `old` and of `new` after a step of the carry. -/
theorem mem_sources_advance
    (hNe : old ≠ new)
    (c : Carrying)
    (s : Source) :
    (s ∈ (c.advance old new).dir.sources old ↔
        s ∈ c.dir.sources old ∧ c.phase ≠ .wrote) ∧
      (s ∈ (c.advance old new).dir.sources new ↔
        s ∈ c.dir.sources new ∨
          ∃ source, c.phase = .read source ∧
            s ∈ source.sources) := by
  unfold Carrying.advance
  cases hPhase : c.phase with
  | unread =>
      cases hRead : c.dir.readIn old with
      | none => simp
      | some source => simp
  | read source =>
      refine ⟨?_, ?_⟩
      · simp [mem_sources_editIn, hNe]
      · simp [mem_sources_editIn, mem_sources_carryRecord,
          sources_getD]
  | wrote =>
      refine ⟨?_, ?_⟩
      · simp [mem_sources_editIn, Record.blank]
      · simp [mem_sources_editIn, hNe.symm]
  | done carried => simp

theorem readsOld_step
    (hCalm : Calm old new c mark)
    (hReads : ReadsOld old c) :
    ReadsOld old (c.step old new mark) := by
  intro source hPhase way
  rcases mark.kinds with
    rfl | ⟨sid, other, hEnrolls⟩ | ⟨sid, other, rfl⟩
  · rw [Carrying.step] at hPhase ⊢
    unfold Carrying.advance at hPhase ⊢
    split at hPhase
    · split at hPhase
      · cases hPhase
      · rename_i hRead
        cases hPhase
        dsimp only
        rw [sources_of_readIn hRead]
    · cases hPhase
    · cases hPhase
    · rename_i hDone
      rw [hDone] at hPhase
      cases hPhase
  · rw [phase_step_of_enrolls hEnrolls] at hPhase
    rw [hReads source hPhase way,
      mem_sources_step_of_enrolls hEnrolls]
    simp only [Calm, hPhase] at hCalm
    constructor
    · exact Or.inl
    · rintro (hOld | ⟨rfl, rfl⟩)
      · exact hOld
      · exact (hCalm way).1 hEnrolls
  · have hBefore : c.phase = .read source := hPhase
    rw [hReads source hBefore way, mem_sources_step_withdraw]
    simp only [Calm, hBefore] at hCalm
    constructor
    · intro hOld
      refine ⟨hOld, ?_⟩
      rintro ⟨rfl, rfl⟩
      exact (hCalm way).2 rfl hOld
    · exact And.left

/- An edit that leaves the way where the carry needs it. -/
theorem held_of_kept
    {c' : Carrying}
    (hPhase : c'.phase = c.phase)
    (hOld : s ∈ c.dir.sources old → s ∈ c'.dir.sources old)
    (hNew :
      c.phase.written = true → s ∈ c.dir.sources new →
        s ∈ c'.dir.sources new)
    (hHeld : Held old new s c) :
    Held old new s c' := by
  unfold Held at hHeld ⊢
  rw [hPhase]
  cases hAt : c.phase with
  | unread =>
      rw [hAt] at hHeld
      exact hOld hHeld
  | read source =>
      rw [hAt] at hHeld
      exact hOld hHeld
  | wrote =>
      rw [hAt] at hHeld hNew
      exact hNew rfl hHeld
  | done carried =>
      rw [hAt] at hHeld hNew
      cases carried with
      | true => exact hHeld.imp (hNew rfl) hOld
      | false => exact hOld hHeld

/- No step but a withdrawal loses an owed way. -/
theorem held_step
    (hNe : old ≠ new)
    (hReads : ReadsOld old c)
    (hKeeps : ¬ Drops old new s c mark)
    (hHeld : Held old new s c) :
    Held old new s (c.step old new mark) := by
  rcases mark.kinds with
    rfl | ⟨sid, other, hEnrolls⟩ | ⟨sid, other, rfl⟩
  · rw [Carrying.step]
    have hAfter := mem_sources_advance hNe c s
    unfold Held at hHeld ⊢
    cases hAt : c.phase with
    | unread =>
        rw [hAt] at hHeld
        cases hRead : c.dir.readIn old with
        | none =>
            rw [sources_of_readIn_none hRead] at hHeld
            cases hHeld
        | some source =>
            simp only [Carrying.advance, hAt, hRead]
            exact hHeld
    | read source =>
        rw [hAt] at hHeld
        have hSource := (hReads source hAt s).mpr hHeld
        have hPhase : (c.advance old new).phase = .wrote := by
          simp only [Carrying.advance, hAt]
        rw [hPhase]
        exact hAfter.2.mpr (Or.inr ⟨source, hAt, hSource⟩)
    | wrote =>
        rw [hAt] at hHeld
        have hPhase :
            (c.advance old new).phase = .done true := by
          simp only [Carrying.advance, hAt]
        rw [hPhase]
        exact Or.inl (hAfter.2.mpr (Or.inl hHeld))
    | done carried =>
        have hSame : c.advance old new = c := by
          simp only [Carrying.advance, hAt]
        rw [hSame, hAt]
        rw [hAt] at hHeld
        exact hHeld
  · refine held_of_kept (phase_step_of_enrolls hEnrolls) ?_ ?_
      hHeld
    · intro hMem
      exact (mem_sources_step_of_enrolls hEnrolls old).mpr
        (Or.inl hMem)
    · intro _ hMem
      exact (mem_sources_step_of_enrolls hEnrolls new).mpr
        (Or.inl hMem)
  · refine held_of_kept (c := c) rfl ?_ ?_ hHeld
    · intro hMem
      refine (mem_sources_step_withdraw sid other old).mpr
        ⟨hMem, ?_⟩
      rintro ⟨rfl, rfl⟩
      exact hKeeps (Or.inl rfl)
    · intro hWritten hMem
      refine (mem_sources_step_withdraw sid other new).mpr
        ⟨hMem, ?_⟩
      rintro ⟨rfl, rfl⟩
      exact hKeeps (Or.inr ⟨rfl, hWritten⟩)

/- No step but an enrollment brings a gone way back. -/
theorem gone_step
    (hNe : old ≠ new)
    (hReads : ReadsOld old c)
    (hKeeps : ¬ Renews old new s c mark)
    (hGone : Gone old new s c) :
    Gone old new s (c.step old new mark) := by
  rcases hGone with ⟨hNew, hOld⟩
  rcases mark.kinds with
    rfl | ⟨sid, other, hEnrolls⟩ | ⟨sid, other, rfl⟩
  · rw [Carrying.step]
    rcases mem_sources_advance hNe c s with ⟨hOldIff, hNewIff⟩
    refine ⟨?_, ?_⟩
    · rw [hNewIff]
      rintro (hThere | ⟨source, hAt, hSource⟩)
      · exact hNew hThere
      · refine hOld ?_ ((hReads source hAt s).mp hSource)
        rw [hAt]
        rfl
    · intro hUnwritten hThere
      rcases hOldIff.mp hThere with ⟨hBefore, -⟩
      refine hOld ?_ hBefore
      cases hAt : c.phase with
      | unread => rfl
      | read source => rfl
      | wrote =>
          simp only [Carrying.advance, hAt,
            CarryPhase.written] at hUnwritten
          cases hUnwritten
      | done carried =>
          simp only [Carrying.advance, hAt] at hUnwritten
          exact hUnwritten
  · refine ⟨?_, ?_⟩
    · rw [mem_sources_step_of_enrolls hEnrolls]
      rintro (hThere | ⟨rfl, rfl⟩)
      · exact hNew hThere
      · exact hKeeps (Or.inl hEnrolls)
    · intro hUnwritten
      rw [phase_step_of_enrolls hEnrolls] at hUnwritten
      rw [mem_sources_step_of_enrolls hEnrolls]
      rintro (hThere | ⟨rfl, rfl⟩)
      · exact hOld hUnwritten hThere
      · exact hKeeps (Or.inr ⟨hEnrolls, hUnwritten⟩)
  · refine ⟨?_, ?_⟩
    · intro hThere
      exact hNew
        ((mem_sources_step_withdraw sid other new).mp hThere).1
    · intro hUnwritten hThere
      exact hOld hUnwritten
        ((mem_sources_step_withdraw sid other old).mp hThere).1

theorem apart_step
    (hNe : old ≠ new)
    (hCalm : Calm old new c mark)
    (hApart : Apart old new c) :
    Apart old new (c.step old new mark) := by
  intro hDone way
  rcases mark.kinds with
    rfl | ⟨sid, other, hEnrolls⟩ | ⟨sid, other, rfl⟩
  · rw [Carrying.step] at hDone ⊢
    rintro ⟨hOld, hNew⟩
    rw [(mem_sources_advance hNe c way).1] at hOld
    rw [(mem_sources_advance hNe c way).2] at hNew
    cases hAt : c.phase with
    | unread =>
        cases hRead : c.dir.readIn old with
        | none =>
            rw [sources_of_readIn_none hRead] at hOld
            cases hOld.1
        | some source =>
            simp only [Carrying.advance, hAt, hRead] at hDone
            cases hDone
    | read source =>
        simp only [Carrying.advance, hAt] at hDone
        cases hDone
    | wrote => exact hOld.2 hAt
    | done carried =>
        rcases hNew with hThere | ⟨source, hRead, -⟩
        · refine hApart ?_ way ⟨hOld.1, hThere⟩
          rw [hAt]
          rfl
        · rw [hAt] at hRead
          cases hRead
  · rw [phase_step_of_enrolls hEnrolls] at hDone
    have hBefore := hApart hDone way
    rcases CarryPhase.eq_done_of_isDone hDone with
      ⟨carried, hAt⟩
    simp only [Calm, hAt] at hCalm
    rw [mem_sources_step_of_enrolls hEnrolls,
      mem_sources_step_of_enrolls hEnrolls]
    rintro ⟨hOld | ⟨hSid, hWay⟩, hNew | ⟨hSid', hWay'⟩⟩
    · exact hBefore ⟨hOld, hNew⟩
    · rw [← hSid', ← hWay'] at hEnrolls
      exact (hCalm way).2 hEnrolls hOld
    · rw [← hSid, ← hWay] at hEnrolls
      exact (hCalm way).1 hEnrolls hNew
    · exact hNe (hSid.trans hSid'.symm)
  · rw [mem_sources_step_withdraw, mem_sources_step_withdraw]
    rintro ⟨⟨hOld, -⟩, hNew, -⟩
    exact hApart hDone way ⟨hOld, hNew⟩

end Presence

------------------------------------------------------------
-- Every Interleaving
------------------------------------------------------------

namespace Presence

variable {old new : String} {s : Source} {start : Carrying}
variable {marks first second : List CarryMark}

/- Every mark of the run leaves the carry calm. -/
def CalmRun
    (old new : String)
    (start : Carrying)
    (marks : List CarryMark) : Prop :=
  ∀ t ∈ (carryMachine old new).trace start marks,
    Calm old new t.before t.input

theorem calmRun_append
    (hCalm : CalmRun old new start (first ++ second)) :
    CalmRun old new start first ∧
      CalmRun old new
        ((carryMachine old new).final start first) second := by
  unfold CalmRun at hCalm ⊢
  rw [StepMachine.trace_append] at hCalm
  refine ⟨?_, ?_⟩
  · intro t hMem
    exact hCalm t (List.mem_append_left _ hMem)
  · intro t hMem
    exact hCalm t (List.mem_append_right _ hMem)

theorem readsOld_final
    (hCalm : CalmRun old new start marks)
    (hReads : ReadsOld old start) :
    ReadsOld old ((carryMachine old new).final start marks) :=
  StepMachine.invariant_final (ReadsOld old) (Calm old new)
    (fun _ _ hBefore hOk => readsOld_step hOk hBefore) hCalm
    hReads

/- A way held where the carry needs it stays until dropped. -/
theorem held_final
    (hNe : old ≠ new)
    (hCalm : CalmRun old new start marks)
    (hKeeps :
      ∀ t ∈ (carryMachine old new).trace start marks,
        ¬ Drops old new s t.before t.input)
    (hReads : ReadsOld old start)
    (hHeld : Held old new s start) :
    Held old new s
      ((carryMachine old new).final start marks) := by
  have hBoth :=
    StepMachine.invariant_final (m := carryMachine old new)
      (fun c => ReadsOld old c ∧ Held old new s c)
      (fun c mark =>
        Calm old new c mark ∧ ¬ Drops old new s c mark)
      (fun c mark hBefore hOk =>
        ⟨readsOld_step hOk.1 hBefore.1,
          held_step hNe hBefore.1 hOk.2 hBefore.2⟩)
      (fun t hMem => ⟨hCalm t hMem, hKeeps t hMem⟩)
      ⟨hReads, hHeld⟩
  exact hBoth.2

/- A gone way stays gone until it is enrolled again. -/
theorem gone_final
    (hNe : old ≠ new)
    (hCalm : CalmRun old new start marks)
    (hKeeps :
      ∀ t ∈ (carryMachine old new).trace start marks,
        ¬ Renews old new s t.before t.input)
    (hReads : ReadsOld old start)
    (hGone : Gone old new s start) :
    Gone old new s
      ((carryMachine old new).final start marks) := by
  have hBoth :=
    StepMachine.invariant_final (m := carryMachine old new)
      (fun c => ReadsOld old c ∧ Gone old new s c)
      (fun c mark =>
        Calm old new c mark ∧ ¬ Renews old new s c mark)
      (fun c mark hBefore hOk =>
        ⟨readsOld_step hOk.1 hBefore.1,
          gone_step hNe hBefore.1 hOk.2 hBefore.2⟩)
      (fun t hMem => ⟨hCalm t hMem, hKeeps t hMem⟩)
      ⟨hReads, hGone⟩
  exact hBoth.2

/- A calm enrollment of `old` leaves the way held. -/
theorem held_step_of_enrolls
    {c : Carrying}
    {mark : CarryMark}
    (hCalm : Calm old new c mark)
    (hEnrolls : mark.enrolls = some (old, s)) :
    Held old new s (c.step old new mark) := by
  have hOld : s ∈ (c.step old new mark).dir.sources old :=
    (mem_sources_step_of_enrolls hEnrolls old).mpr
      (Or.inr ⟨rfl, rfl⟩)
  unfold Held
  rw [phase_step_of_enrolls hEnrolls]
  cases hAt : c.phase with
  | unread => exact hOld
  | read source => exact hOld
  | wrote =>
      simp only [Calm, hAt] at hCalm
      exact (mem_sources_step_of_enrolls hEnrolls new).mpr
        (Or.inl (hCalm s hEnrolls))
  | done carried =>
      cases carried with
      | true => exact Or.inr hOld
      | false => exact hOld

/- A finished carry has an owed way on one of the two ids. -/
theorem sources_of_held
    {c : Carrying}
    (hDone : c.phase.isDone = true)
    (hHeld : Held old new s c) :
    s ∈ c.dir.sources new ∨ s ∈ c.dir.sources old := by
  rcases CarryPhase.eq_done_of_isDone hDone with
    ⟨carried, hAt⟩
  unfold Held at hHeld
  rw [hAt] at hHeld
  cases carried with
  | true => exact hHeld
  | false => exact Or.inr hHeld

theorem held_of_owed
    (hNe : old ≠ new)
    (hUnread : start.phase = .unread)
    (hCalm : CalmRun old new start marks)
    (hReads : ReadsOld old start)
    (hOwed : Owed old new start marks s) :
    Held old new s
      ((carryMachine old new).final start marks) := by
  rcases hOwed with
    ⟨hMem, hKeeps⟩ | ⟨first, mark, second, rfl, hEnrolls, hKeeps⟩
  · refine held_final hNe hCalm hKeeps hReads ?_
    unfold Held
    rw [hUnread]
    exact hMem
  · rw [List.append_cons] at hCalm
    rw [List.append_cons, StepMachine.final_append]
    rcases calmRun_append hCalm with ⟨hFirst, hSecond⟩
    refine held_final hNe hSecond hKeeps
      (readsOld_final hFirst hReads) ?_
    rw [StepMachine.final_append]
    refine held_step_of_enrolls ?_ hEnrolls
    rcases calmRun_append hFirst with ⟨-, hMark⟩
    exact hMark _ List.mem_cons_self

/- A way that `new` lacks is gone once `old` withdraws it. -/
theorem gone_step_withdraw
    {c : Carrying}
    (hNew : s ∉ c.dir.sources new) :
    Gone old new s (c.step old new (.withdraw old s)) := by
  refine ⟨?_, ?_⟩
  · intro hThere
    rw [mem_sources_step_withdraw] at hThere
    exact hNew hThere.1
  · intro _ hThere
    rw [mem_sources_step_withdraw] at hThere
    exact hThere.2 ⟨rfl, rfl⟩

theorem gone_of_withdrawnFirst
    (hNe : old ≠ new)
    (hCalm : CalmRun old new start marks)
    (hReads : ReadsOld old start)
    (hWithdrawn : WithdrawnFirst old new start marks s) :
    Gone old new s
      ((carryMachine old new).final start marks) := by
  rcases hWithdrawn with
    ⟨first, second, rfl, hUnwritten, hNew, hKeeps⟩
  rw [List.append_cons] at hCalm
  rw [List.append_cons, StepMachine.final_append]
  rcases calmRun_append hCalm with ⟨hFirst, hSecond⟩
  refine gone_final hNe hSecond hKeeps
    (readsOld_final hFirst hReads) ?_
  rw [StepMachine.final_append]
  exact gone_step_withdraw hNew

/-
  A finished carry beside calm edits has every way recorded
  for `old` and not withdrawn on one of the two ids, has
  recorded for `new` no way withdrawn before its write, and
  leaves the two ids no way in common.
-/
theorem carry_run
    (old new : String)
    (start : Carrying)
    (marks : List CarryMark)
    (hNe : old ≠ new)
    (hUnread : start.phase = .unread)
    (hCalm :
      ∀ t ∈ (carryMachine old new).trace start marks,
        Calm old new t.before t.input)
    (hDone :
      ((carryMachine old new).final start
        marks).phase.isDone = true) :
    (∀ s, Owed old new start marks s →
        s ∈ ((carryMachine old new).final start
            marks).dir.sources new ∨
          s ∈ ((carryMachine old new).final start
            marks).dir.sources old) ∧
      (∀ s, WithdrawnFirst old new start marks s →
        s ∉ ((carryMachine old new).final start
          marks).dir.sources new) ∧
      ∀ s,
        ¬ (s ∈ ((carryMachine old new).final start
              marks).dir.sources old ∧
            s ∈ ((carryMachine old new).final start
              marks).dir.sources new) := by
  have hReads : ReadsOld old start := by
    intro source hPhase
    rw [hUnread] at hPhase
    cases hPhase
  have hStart : Apart old new start := by
    intro hOver
    rw [hUnread] at hOver
    cases hOver
  refine ⟨?_, ?_, ?_⟩
  · intro s hOwed
    exact sources_of_held hDone
      (held_of_owed hNe hUnread hCalm hReads hOwed)
  · intro s hWithdrawn
    exact (gone_of_withdrawnFirst hNe hCalm hReads hWithdrawn).1
  · have hApart :=
      StepMachine.invariant_final (Apart old new)
        (Calm old new)
        (fun _ _ hBefore hOk => apart_step hNe hOk hBefore)
        hCalm hStart
    exact hApart hDone

instance
    (old new : String)
    (s : Source)
    (c : Carrying)
    (mark : CarryMark) :
    Decidable (Drops old new s c mark) :=
  inferInstanceAs
    (Decidable
      (mark = .withdraw old s ∨
        (mark = .withdraw new s ∧ c.phase.written = true)))

instance
    (old new : String)
    (s : Source)
    (c : Carrying)
    (mark : CarryMark) :
    Decidable (Renews old new s c mark) :=
  inferInstanceAs
    (Decidable
      (mark.enrolls = some (new, s) ∨
        (mark.enrolls = some (old, s) ∧
          c.phase.written = false)))

/- A session that joined, before its id changes. -/
def joined : Carrying where
  dir :=
    Enrolled.editIn
      { records := KeyMap.empty, index := KeyMap.empty }
      "old" (enrollRecord .join none none none 0)
  phase := .unread

/- An add before the read of the carry is carried with it. -/
theorem carry_run_added :
    .add ∈ ((carryMachine "old" "new").final joined
        [.enrollAdded "old" none 1, .carry, .carry,
          .carry]).dir.sources "new" ∨
      .add ∈ ((carryMachine "old" "new").final joined
        [.enrollAdded "old" none 1, .carry, .carry,
          .carry]).dir.sources "old" := by
  refine (carry_run "old" "new" joined _ (by decide) rfl ?_
    (by decide)).1 .add ?_
  · intro t hMem
    rw [StepMachine.trace_cons] at hMem
    rcases List.mem_cons.mp hMem with rfl | hRest
    · trivial
    · -- The carry's own steps enroll and withdraw nothing.
      have hCarry : t.input = .carry := by
        have hInput := StepMachine.input_mem_of_mem_trace hRest
        simpa using hInput
      rw [hCarry]
      unfold Calm
      split
      · trivial
      · intro s
        exact ⟨nofun, nofun⟩
      · intro s
        exact nofun
      · intro s
        exact ⟨nofun, nofun⟩
  · refine Or.inr ⟨[], _, _, rfl, rfl, ?_⟩
    decide

/-
  An add between the carry's read and its blanking of the
  old record is lost; a way withdrawn after the read comes
  back; and an enrollment after the carry is on both ids.
-/
theorem carry_run_between :
    (Owed "old" "new" joined
          [.carry, .enrollAdded "old" none 1, .carry, .carry]
          .add ∧
        .add ∉ ((carryMachine "old" "new").final joined
          [.carry, .enrollAdded "old" none 1, .carry,
            .carry]).dir.sources "new" ∧
        .add ∉ ((carryMachine "old" "new").final joined
          [.carry, .enrollAdded "old" none 1, .carry,
            .carry]).dir.sources "old") ∧
      (WithdrawnFirst "old" "new" joined
          [.carry, .withdraw "old" .join, .carry, .carry]
          .join ∧
        .join ∈ ((carryMachine "old" "new").final joined
          [.carry, .withdraw "old" .join, .carry,
            .carry]).dir.sources "new") ∧
      .join ∈ ((carryMachine "old" "new").final joined
          [.carry, .carry, .carry,
            .enroll "old" .join none none none
              1]).dir.sources "old" ∧
        .join ∈ ((carryMachine "old" "new").final joined
          [.carry, .carry, .carry,
            .enroll "old" .join none none none
              1]).dir.sources "new" := by
  refine ⟨⟨?_, by decide, by decide⟩,
    ⟨?_, by decide⟩, by decide,
    by decide⟩
  · refine Or.inr ⟨[.carry], _, _, rfl, rfl, ?_⟩
    decide
  · refine ⟨[.carry], [.carry, .carry], rfl,
      by decide, by decide, ?_⟩
    decide

end Presence
