import AgentWays.Presence.OptOut

/-
  What an opt-out does to a live run, over any interleaving.

  Where every rewrite of an opt-out finds the run that its
  look found, or none when the look found none, no rewrite
  ends the enrollment of a run that holds the lock, and a
  session that opted out is silent once no run holds it.

  Key definitions include:
    * `Presence.Settled`
    * `Presence.KeepsRun`
    * `Presence.Quiet`
    * `Presence.Guarded`

  Main declarations:
    * `Presence.guarded_step`
    * `Presence.optOut_run`
    * `Presence.optOut_run_late`
-/

------------------------------------------------------------
-- The Property
------------------------------------------------------------

namespace Presence

/- One turn of the session. -/
abbrev MarkTurn :=
  StepMachine.Turn Standing Mark Unit

/- The mark rewrites the record for an opt-out. -/
def Mark.optsOut : Mark → Bool
| .optOutWrite _ => true
| .askWrite => true
| _ => false

/- The rewrite leaves a run that holds the lock enrolled. -/
def KeepsRun
    (sid : String)
    (t : MarkTurn) : Prop :=
  t.input.optsOut = true → t.before.lock.isSome = true →
    .run ∈ t.before.dir.sources sid →
    .run ∈ t.after.dir.sources sid

/- Opted out, the session is silent when no run holds it. -/
def Quiet
    (sid : String)
    (p : Standing) : Prop :=
  p.optedOut.isSome = true → p.lock = none →
    p.listening sid = false

/-
  The run that holds the lock, or is to take it again, when
  an opt-out rewrites the record is the one its look found,
  and had read its start then.
-/
def Settled
    (p : Standing) : Mark → Prop
| .optOutWrite i =>
    ∀ o, p.optOuts[i]? = some o →
      ∀ h, p.present = some h →
        o.found = some h.run ∧ o.started = true
| .askWrite => p.asks ≠ 0 → p.present = none
| _ => True

end Presence

------------------------------------------------------------
-- The Invariant
------------------------------------------------------------

namespace Presence

/- The record keeps the run, and the opt-out it must keep. -/
def Stands
    (sid : String)
    (p : Standing)
    (h : Holder) : Prop :=
  ∃ r since made,
    p.dir.readIn sid = some r ∧ .run ∈ r.sources ∧
      r.optout = true ∧ r.optoutAt = some made ∧
      h.since = some since ∧ since ≤ made

/- A way or none, with an opt-out that waits for the run. -/
def Ended
    (sid : String)
    (d : Enrolled) : Prop :=
  d.sources sid = [] ∨
    ∃ r, d.readIn sid = some r ∧ r.optout = true

structure Guarded
    (sid : String)
    (p : Standing) : Prop where
  known :
    ∀ h, p.present = some h →
      h.run ≤ p.starts ∧ ∀ t, h.since = some t → t ≤ p.clock
  alone : p.lock.isSome = true → p.reexecuting = none
  looks :
    ∀ o ∈ p.optOuts,
      (∀ k, o.found = some k → k ≤ p.starts) ∧
        ∀ h, p.present = some h → o.found = some h.run →
          o.started = true →
          ∃ t, h.since = some t ∧ t ≤ o.made
  counted : ∀ n, p.optedOut = some n → n ≤ p.starts
  ended :
    ∀ n, p.optedOut = some n → Ended sid p.dir
  stands :
    ∀ n h, p.optedOut = some n → p.present = some h →
      h.run ≤ n → Stands sid p h

variable {sid : String} {p : Standing}

theorem present_of_lock
    {h : Holder}
    (hLock : p.lock = some h) :
    p.present = some h := by
  rw [Standing.present, hLock]
  rfl

/- The run that holds the lock is the only one there. -/
theorem eq_of_present
    {h h' : Holder}
    (hLock : p.lock = some h)
    (hHolds : p.present = some h') :
    h' = h := by
  rw [present_of_lock hLock] at hHolds
  exact (Option.some.inj hHolds).symm

theorem kept_of_mem
    {r : Record}
    {s : Source}
    (hMem : s ∈ r.sources) :
    r.kept = some r := by
  unfold Record.kept
  rw [if_neg]
  rw [List.isEmpty_iff]
  exact List.ne_nil_of_mem hMem

/- With no run, an ended enrollment is silent. -/
theorem quiet_of_guarded
    (hGuarded : Guarded sid p) :
    Quiet sid p := by
  intro hOut hFree
  rcases Option.isSome_iff_exists.mp hOut with ⟨n, hN⟩
  unfold Standing.listening
  rcases hGuarded.ended n hN with hNone | ⟨r, hRead, hPending⟩
  · rw [← sources_getD] at hNone
    cases hRead : p.dir.readIn sid with
    | none => rfl
    | some r =>
        rw [hRead] at hNone
        simp only [Option.getD_some] at hNone
        simp [hNone]
  · rw [hRead]
    simp [hPending, hFree]

/- A step that changes no record and only loses runs. -/
theorem Guarded.of_present
    {q : Standing}
    (hGuarded : Guarded sid p)
    (hDir : q.dir = p.dir)
    (hPresent : ∀ h, q.present = some h → p.present = some h)
    (hAlone : q.lock.isSome = true → q.reexecuting = none)
    (hClock : p.clock ≤ q.clock)
    (hStarts : q.starts = p.starts)
    (hLooks : q.optOuts = p.optOuts)
    (hOut : q.optedOut = p.optedOut) :
    Guarded sid q where
  known := by
    intro h hHolds
    rcases hGuarded.known h (hPresent h hHolds) with
      ⟨hRun, hSince⟩
    rw [hStarts]
    exact ⟨hRun, fun t hT => (hSince t hT).trans hClock⟩
  alone := hAlone
  looks := by
    intro o hMem
    rw [hLooks] at hMem
    rcases hGuarded.looks o hMem with ⟨hFound, hMade⟩
    rw [hStarts]
    exact ⟨hFound, fun h hHolds => hMade h (hPresent h hHolds)⟩
  counted := by
    rw [hOut, hStarts]
    exact hGuarded.counted
  ended := by
    rw [hOut, hDir]
    exact hGuarded.ended
  stands := by
    intro n h hN hHolds hRun
    rw [hOut] at hN
    unfold Stands
    rw [hDir]
    exact hGuarded.stands n h hN (hPresent h hHolds) hRun

end Presence

------------------------------------------------------------
-- The Lock
------------------------------------------------------------

namespace Presence

variable {sid : String} {p : Standing}

theorem guarded_take
    (inherits : Bool)
    (hGuarded : Guarded sid p) :
    Guarded sid (p.take inherits) := by
  unfold Standing.take
  split
  · exact hGuarded
  · rename_i hFree
    rw [Bool.not_eq_true, Option.isSome_eq_false_iff,
      Option.isNone_iff_eq_none] at hFree
    split
    · refine hGuarded.of_present rfl ?_ (fun _ => rfl) le_rfl
        rfl rfl rfl
      intro h hHolds
      simpa [Standing.present, hFree] using hHolds
    · -- The new run is later than every look and opt-out.
      have hNew :
          ∀ h,
            Standing.present
              { p with
                lock :=
                  some { since := none, run := p.starts + 1 }
                reexecuting := none
                starts := p.starts + 1 } = some h →
              h = { since := none, run := p.starts + 1 } := by
        intro h hHolds
        simpa [Standing.present] using hHolds.symm
      refine ⟨?_, fun _ => rfl, ?_, ?_, hGuarded.ended, ?_⟩
      · intro h hHolds
        rw [hNew h hHolds]
        refine ⟨le_rfl, ?_⟩
        intro t hT
        cases hT
      · intro o hMem
        rcases hGuarded.looks o hMem with ⟨hFound, -⟩
        refine ⟨fun k hK => (hFound k hK).trans (by simp), ?_⟩
        intro h hHolds hSame
        rw [hNew h hHolds] at hSame
        have hOld := hFound _ hSame
        dsimp only at hOld
        omega
      · intro n hN
        exact (hGuarded.counted n hN).trans (by simp)
      · intro n h hN hHolds hRun
        rw [hNew h hHolds] at hRun
        have hOld := hGuarded.counted n hN
        dsimp only at hRun
        omega

theorem guarded_stamp
    (hGuarded : Guarded sid p) :
    Guarded sid p.stamp := by
  unfold Standing.stamp
  split
  · rename_i run hLock
    have hHeld := present_of_lock hLock
    have hNew :
        ∀ h,
          Standing.present
            { p with
              lock :=
                some { since := some p.clock, run := run } } =
              some h →
            h = { since := some p.clock, run := run } := by
      intro h hHolds
      simpa [Standing.present] using hHolds.symm
    refine ⟨?_, ?_, ?_, hGuarded.counted, hGuarded.ended, ?_⟩
    · intro h hHolds
      rw [hNew h hHolds]
      refine ⟨(hGuarded.known _ hHeld).1, ?_⟩
      intro t hT
      cases hT
      exact le_rfl
    · intro _
      exact hGuarded.alone (by rw [hLock]; rfl)
    · intro o hMem
      rcases hGuarded.looks o hMem with ⟨hFound, hMade⟩
      refine ⟨hFound, ?_⟩
      intro h hHolds hSame hStarted
      rw [hNew h hHolds] at hSame
      rcases hMade _ hHeld hSame hStarted with ⟨t, hT, -⟩
      cases hT
    · intro n h hN hHolds hRun
      rw [hNew h hHolds] at hRun
      rcases hGuarded.stands n _ hN hHeld hRun with
        ⟨r, t, made, -, -, -, -, hT, -⟩
      cases hT
  · exact hGuarded

theorem guarded_release
    (reexecutes : Bool)
    (hGuarded : Guarded sid p) :
    Guarded sid (p.release reexecutes) := by
  unfold Standing.release
  split
  · exact hGuarded
  · rename_i holder hLock
    refine hGuarded.of_present rfl ?_ ?_ le_rfl rfl rfl rfl
    · intro h hHolds
      cases reexecutes with
      | true => simpa [Standing.present, hLock] using hHolds
      | false => simp [Standing.present] at hHolds
    · intro hSome
      cases hSome

theorem guarded_optOutLook
    (hGuarded : Guarded sid p) :
    Guarded sid p.optOutLook := by
  refine ⟨hGuarded.known, hGuarded.alone, ?_,
    hGuarded.counted, hGuarded.ended, hGuarded.stands⟩
  intro o hMem
  rcases List.mem_append.mp hMem with hOld | hNew
  · exact hGuarded.looks o hOld
  · rw [List.mem_singleton] at hNew
    subst hNew
    cases hLock : p.lock with
    | none =>
        refine ⟨?_, ?_⟩
        · intro k hK
          simp at hK
        · intro h hHolds hSame
          simp at hSame
    | some holder =>
        have hHeld := present_of_lock hLock
        rcases hGuarded.known holder hHeld with
          ⟨hRun, hSince⟩
        refine ⟨?_, ?_⟩
        · intro k hK
          simp only [Option.map_some, Option.some.injEq] at hK
          rw [← hK]
          exact hRun
        · intro h hHolds hSame hStarted
          have hSelf : h = holder := eq_of_present hLock hHolds
          subst hSelf
          simp only [Option.bind_some] at hStarted
          rcases Option.isSome_iff_exists.mp hStarted with
            ⟨t, hT⟩
          exact ⟨t, hT, hSince t hT⟩

end Presence

------------------------------------------------------------
-- The Record
------------------------------------------------------------

namespace Presence

variable {sid : String} {p : Standing}

/- The session's record as an edit reads it. -/
theorem readIn_getD
    {d : Enrolled}
    {r : Record}
    (hRead : d.readIn sid = some r) :
    (d.readIn sid).getD Record.blank = r := by
  rw [hRead]
  rfl

/-
  A run that had started when the opt-out was made keeps the
  opt-out; one that started later overrides it.
-/
theorem guarded_enrollRun
    (claude : Option String)
    (hGuarded : Guarded sid p) :
    Guarded sid (p.enrollRun sid claude) := by
  unfold Standing.enrollRun
  split
  · rename_i since run hLock
    have hHeld := present_of_lock hLock
    have hKeeps :
        ∀ n,
          p.optedOut.filter (fun n => decide (run ≤ n)) =
              some n →
          p.optedOut = some n ∧
            ∃ r made,
              (p.dir.editIn sid
                  (enrollRecord .run none claude (some since)
                    (p.clock / 1000))).readIn sid = some r ∧
                .run ∈ r.sources ∧ r.optout = true ∧
                r.optoutAt = some made ∧ since ≤ made := by
      intro n hN
      rcases Option.filter_eq_some_iff.mp hN with ⟨hOut, hRun⟩
      refine ⟨hOut, ?_⟩
      rcases hGuarded.stands n _ hOut hHeld
          (of_decide_eq_true hRun) with
        ⟨r, t, made, hRead, hMem, hPending, hAt, hT, hMade⟩
      cases hT
      have hStays :
          .run ∈ (enrollRecord .run none claude (some since)
            (p.clock / 1000) r).sources := by
        simp [enrollRecord, hMem]
      refine ⟨enrollRecord .run none claude (some since)
        (p.clock / 1000) r, made, ?_, hStays, ?_, ?_, hMade⟩
      · rw [readIn_editIn, readIn_getD hRead,
          kept_of_mem hStays]
      · simp [enrollRecord, hAt, hMade, hPending]
      · simp [enrollRecord, hAt, hMade]
    refine ⟨hGuarded.known, hGuarded.alone, hGuarded.looks,
      ?_, ?_, ?_⟩
    · intro n hN
      exact hGuarded.counted n (hKeeps n hN).1
    · intro n hN
      rcases hKeeps n hN with
        ⟨-, r, made, hRead, -, hPending, -, -⟩
      exact Or.inr ⟨r, hRead, hPending⟩
    · intro n h hN hHolds hRun
      have hSelf : h = { since := some since, run := run } :=
        eq_of_present hLock hHolds
      rcases hKeeps n hN with
        ⟨-, r, made, hRead, hMem, hPending, hAt, hMade⟩
      refine ⟨r, since, made, hRead, hMem, hPending, hAt, ?_,
        hMade⟩
      rw [hSelf]
  · exact hGuarded

/- With a live run, an opt-out leaves the run. -/
theorem run_mem_optOutRecord
    (made : Nat)
    (r : Record) :
    .run ∈ (optOutRecord true made r).sources := by
  simp only [optOutRecord, if_true]
  split
  · simp
  · rename_i hKept
    rw [List.isEmpty_iff] at hKept
    rcases List.exists_mem_of_ne_nil _ hKept with ⟨s, hMem⟩
    have hRun := of_decide_eq_true (List.mem_filter.mp hMem).2
    rw [hRun] at hMem
    exact hMem

theorem readIn_optOutRecord
    {d : Enrolled}
    (made : Nat) :
    (d.editIn sid (optOutRecord true made)).readIn sid =
      some
        (optOutRecord true made
          ((d.readIn sid).getD Record.blank)) := by
  rw [readIn_editIn]
  exact kept_of_mem (run_mem_optOutRecord made _)

theorem guarded_optOutWrite
    (i : Nat)
    (hGuarded : Guarded sid p)
    (hSettled : Settled p (.optOutWrite i)) :
    Guarded sid (p.optOutWrite sid i) := by
  unfold Standing.optOutWrite
  split
  · exact hGuarded
  · rename_i o hGet
    have hMem : o ∈ p.optOuts := List.mem_of_getElem? hGet
    refine ⟨hGuarded.known, hGuarded.alone, ?_, ?_, ?_, ?_⟩
    · intro o' hMem'
      exact hGuarded.looks o' (List.mem_of_mem_eraseIdx hMem')
    · intro n hN
      cases hN
      exact le_rfl
    · intro n _
      cases hFound : o.found with
      | none =>
          refine Or.inl ?_
          rw [sources_editIn]
          simp [optOutRecord]
      | some k =>
          exact Or.inr ⟨_, readIn_optOutRecord o.made, rfl⟩
    · -- The run there is the one found, so it is kept.
      intro n h _ hHolds _
      rcases hSettled o hGet h hHolds with ⟨hFound, hStarted⟩
      rcases (hGuarded.looks o hMem).2 h hHolds hFound
          hStarted with ⟨t, hT, hMade⟩
      rw [hFound]
      exact ⟨_, t, o.made, readIn_optOutRecord o.made,
        run_mem_optOutRecord o.made _, rfl, rfl, hT, hMade⟩

/- A pending opt-out that finds no run leaves no way. -/
theorem guarded_askWrite
    (hGuarded : Guarded sid p)
    (hSettled : Settled p .askWrite) :
    Guarded sid (p.askWrite sid) := by
  unfold Standing.askWrite
  split
  · exact hGuarded
  · rename_i hAsks
    have hNone : p.present = none := hSettled hAsks
    refine ⟨hGuarded.known, hGuarded.alone, hGuarded.looks,
      hGuarded.counted, ?_, ?_⟩
    · intro n hN
      refine Or.inl ?_
      rw [sources_editIn, applyOptOut]
      rcases hGuarded.ended n hN with
        hEmpty | ⟨r, hRead, hPending⟩
      · split
        · rfl
        · rw [sources_getD]
          exact hEmpty
      · rw [readIn_getD hRead, if_pos hPending]
    · intro n h _ hHolds _
      have hThere : p.present = some h := hHolds
      rw [hNone] at hThere
      cases hThere

/- An enrollment that is no run's overrides the opt-out. -/
theorem guarded_enroll
    (dir : Enrolled)
    (hGuarded : Guarded sid p) :
    Guarded sid { p with dir := dir, optedOut := none } := by
  refine ⟨hGuarded.known, hGuarded.alone, hGuarded.looks,
    ?_, ?_, ?_⟩
  · intro n hN
    cases hN
  · intro n hN
    cases hN
  · intro n h hN
    cases hN

/- The end of a membership leaves the run and the opt-out. -/
theorem guarded_withdraw
    (source : Source)
    (hSource : source ≠ .run)
    (hGuarded : Guarded sid p) :
    Guarded sid
      { p with
        dir := p.dir.editIn sid (withdrawRecord source) } := by
  refine ⟨hGuarded.known, hGuarded.alone, hGuarded.looks,
    hGuarded.counted, ?_, ?_⟩
  · intro n hN
    rcases hGuarded.ended n hN with
      hEmpty | ⟨r, hRead, hPending⟩
    · refine Or.inl ?_
      rw [sources_editIn, withdrawRecord, sources_getD, hEmpty]
      rfl
    · cases hLeft : (withdrawRecord source r).sources with
      | nil =>
          refine Or.inl ?_
          rw [sources_editIn, readIn_getD hRead, hLeft]
      | cons s rest =>
          refine Or.inr ⟨withdrawRecord source r, ?_, hPending⟩
          rw [readIn_editIn, readIn_getD hRead]
          refine kept_of_mem (s := s) ?_
          rw [hLeft]
          exact List.mem_cons_self
  · intro n h hN hHolds hRun
    rcases hGuarded.stands n h hN hHolds hRun with
      ⟨r, t, made, hRead, hMem, hPending, hAt, hT, hMade⟩
    have hStays : .run ∈ (withdrawRecord source r).sources :=
      List.mem_filter.mpr ⟨hMem, decide_eq_true hSource.symm⟩
    refine ⟨withdrawRecord source r, t, made, ?_, hStays,
      hPending, hAt, hT, hMade⟩
    rw [readIn_editIn, readIn_getD hRead, kept_of_mem hStays]

end Presence

------------------------------------------------------------
-- Every Interleaving
------------------------------------------------------------

namespace Presence

variable {sid : String} {p : Standing}

theorem guarded_step
    (mark : Mark)
    (hGuarded : Guarded sid p)
    (hSettled : Settled p mark) :
    Guarded sid (p.step sid mark) := by
  cases mark with
  | elapse ms =>
      exact hGuarded.of_present rfl (fun _ hHolds => hHolds)
        hGuarded.alone (Nat.le_add_right _ _) rfl rfl rfl
  | take inherits => exact guarded_take inherits hGuarded
  | stamp => exact guarded_stamp hGuarded
  | release reexecutes => exact guarded_release reexecutes hGuarded
  | enrollRun claude => exact guarded_enrollRun claude hGuarded
  | optOutLook => exact guarded_optOutLook hGuarded
  | optOutWrite i =>
      exact guarded_optOutWrite i hGuarded hSettled
  | askLook =>
      change Guarded sid (p.askLook sid)
      unfold Standing.askLook
      split
      · exact hGuarded
      · split
        · exact hGuarded.of_present rfl
            (fun _ hHolds => hHolds) hGuarded.alone le_rfl
            rfl rfl rfl
        · exact hGuarded
  | askWrite => exact guarded_askWrite hGuarded hSettled
  | enroll source host claude => exact guarded_enroll _ hGuarded
  | withdraw added =>
      refine guarded_withdraw _ ?_ hGuarded
      cases added with
      | true => decide
      | false => decide

/- A settled rewrite leaves a run that holds the lock. -/
theorem keepsRun_of_settled
    (mark : Mark)
    (hSettled : Settled p mark) :
    KeepsRun sid ((optOutMachine sid).turn p mark) := by
  intro hOpts hLock hMem
  change p.lock.isSome = true at hLock
  change .run ∈ p.dir.sources sid at hMem
  change mark.optsOut = true at hOpts
  rcases Option.isSome_iff_exists.mp hLock with ⟨h, hHeld⟩
  have hHolds := present_of_lock hHeld
  change .run ∈ (p.step sid mark).dir.sources sid
  cases mark with
  | optOutWrite i =>
      simp only [Standing.step, Standing.optOutWrite]
      split
      · exact hMem
      · rename_i o hGet
        rcases hSettled o hGet h hHolds with ⟨hFound, -⟩
        rw [hFound, sources_editIn]
        exact run_mem_optOutRecord o.made _
  | askWrite =>
      simp only [Standing.step, Standing.askWrite]
      split
      · exact hMem
      · rename_i hAsks
        rw [hSettled hAsks] at hHolds
        cases hHolds
  | elapse ms => cases hOpts
  | take inherits => cases hOpts
  | stamp => cases hOpts
  | release reexecutes => cases hOpts
  | enrollRun claude => cases hOpts
  | optOutLook => cases hOpts
  | askLook => cases hOpts
  | enroll source host claude => cases hOpts
  | withdraw added => cases hOpts

/- The session before its first run and opt-out. -/
structure Fresh
    (p : Standing) : Prop where
  free : p.lock = none
  still : p.reexecuting = none
  calls : p.optOuts = []
  listens : p.optedOut = none

theorem guarded_of_fresh
    (hFresh : Fresh p) :
    Guarded sid p := by
  have hNone : p.present = none := by
    simp [Standing.present, hFresh.free, hFresh.still]
  refine ⟨?_, fun _ => hFresh.still, ?_, ?_, ?_, ?_⟩
  · intro h hHolds
    rw [hNone] at hHolds
    cases hHolds
  · intro o hMem
    rw [hFresh.calls] at hMem
    cases hMem
  · intro n hN
    rw [hFresh.listens] at hN
    cases hN
  · intro n hN
    rw [hFresh.listens] at hN
    cases hN
  · intro n h hN
    rw [hFresh.listens] at hN
    cases hN

/-
  Where each rewrite of an opt-out meets the run its look
  found, or no run, no rewrite ends the enrollment of a run
  that holds the lock, and a session that opted out is not
  listening once no run holds it.
-/
theorem optOut_run
    (sid : String)
    (start : Standing)
    (marks : List Mark)
    (hFresh : Fresh start)
    (hSettled :
      ∀ t ∈ (optOutMachine sid).trace start marks,
        Settled t.before t.input) :
    (∀ t ∈ (optOutMachine sid).trace start marks,
        KeepsRun sid t ∧ Quiet sid t.after) ∧
      Quiet sid ((optOutMachine sid).final start marks) := by
  have hStep :
      ∀ p mark, Guarded sid p → Settled p mark →
        Guarded sid ((optOutMachine sid).step p mark).1 :=
    fun p mark hGuarded hOk => guarded_step mark hGuarded hOk
  have hInit : Guarded sid start := guarded_of_fresh hFresh
  refine ⟨?_, ?_⟩
  · intro t hMem
    have hKeeps :
        KeepsRun sid ((optOutMachine sid).turn t.before t.input) :=
      keepsRun_of_settled t.input (hSettled t hMem)
    rw [← StepMachine.eq_turn_of_mem_trace hMem] at hKeeps
    refine ⟨hKeeps, quiet_of_guarded ?_⟩
    exact
      (StepMachine.invariant_of_mem_trace (Guarded sid) Settled
        hStep hSettled hInit hMem).2
  · exact quiet_of_guarded
      (StepMachine.invariant_final (Guarded sid) Settled hStep
        hSettled hInit)

/- A session with no record and no run. -/
def unheard : Standing where
  dir := { records := KeyMap.empty, index := KeyMap.empty }
  lock := none
  reexecuting := none
  clock := 0
  starts := 0
  optOuts := []
  asks := 0
  optedOut := none

/- Whether a rewrite is settled. -/
def settledMark
    (p : Standing) : Mark → Bool
| .optOutWrite i =>
    (p.optOuts[i]?).all
      (fun o =>
        p.present.all
          (fun h =>
            decide (o.found = some h.run ∧ o.started = true)))
| .askWrite => decide (p.asks = 0) || p.present.isNone
| _ => true

theorem settledMark_iff
    (p : Standing)
    (mark : Mark) :
    settledMark p mark = true ↔ Settled p mark := by
  cases mark with
  | optOutWrite i =>
      simp only [settledMark, Settled, Option.all_eq_true,
        decide_eq_true_eq]
  | askWrite =>
      simp only [settledMark, Settled, Bool.or_eq_true,
        decide_eq_true_eq, Option.isNone_iff_eq_none, ne_eq]
      exact Decidable.or_iff_not_imp_left
  | _ => simp [settledMark, Settled]

instance
    (p : Standing)
    (mark : Mark) :
    Decidable (Settled p mark) :=
  decidable_of_iff _ (settledMark_iff p mark)

instance
    (sid : String)
    (t : MarkTurn) :
    Decidable (KeepsRun sid t) :=
  inferInstanceAs
    (Decidable
      (t.input.optsOut = true → t.before.lock.isSome = true →
        .run ∈ t.before.dir.sources sid →
        .run ∈ t.after.dir.sources sid))

instance
    (sid : String)
    (p : Standing) :
    Decidable (Quiet sid p) :=
  inferInstanceAs
    (Decidable
      (p.optedOut.isSome = true → p.lock = none →
        p.listening sid = false))

/- An opt-out made and written while the run is there. -/
theorem optOut_run_held :
    (∀ t ∈ (optOutMachine "s").trace unheard
          [.take false, .stamp, .enrollRun none, .elapse 5,
            .optOutLook, .optOutWrite 0, .release false],
        KeepsRun "s" t ∧ Quiet "s" t.after) ∧
      Quiet "s"
        ((optOutMachine "s").final unheard
          [.take false, .stamp, .enrollRun none, .elapse 5,
            .optOutLook, .optOutWrite 0, .release false]) :=
  optOut_run "s" unheard _ ⟨rfl, rfl, rfl, rfl⟩
    (by decide)

/-
  A run that starts between the look and the rewrite loses
  its enrollment when it has enrolled by then; when it has
  not, it outlives the opt-out, and the session listens
  after the run has ended.
-/
theorem optOut_run_late :
    (¬ ∀ t ∈ (optOutMachine "s").trace unheard
          [.optOutLook, .take false, .stamp,
            .enrollRun none, .optOutWrite 0],
        KeepsRun "s" t) ∧
      ¬ Quiet "s"
        ((optOutMachine "s").final unheard
          [.optOutLook, .take false, .optOutWrite 0, .stamp,
            .enrollRun none, .release false]) := by
  refine ⟨?_, ?_⟩
  · decide
  · decide

end Presence
