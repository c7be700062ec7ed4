import AgentWays.Keepwarm.WindowSpec

/-
  What a poll does to a pending wake.

  A poll of a settled transcript keeps its own pending wake
  while the window stands and the ten minutes run. A poll
  that holds no wake writes no ledger, unless its window
  changed or it reads a paid cold write.

  Key definitions include:
    * `Keepwarm.Settled`
    * `Keepwarm.Unanswered`
    * `Keepwarm.KeepsPing`
    * `Keepwarm.paysColdIn`

  Main declarations:
    * `Keepwarm.State.le_stepWith_lastSeenAt`
    * `Keepwarm.State.stepWith_keepsPing`
    * `Keepwarm.State.stepWith_of_undisturbed`
-/

------------------------------------------------------------
-- Settled Transcripts
------------------------------------------------------------

namespace Keepwarm

/- The transcript's last request is at `lastAt` for good. -/
def Settled
    (lastAt : Nat)
    (reading : Reading) : Prop :=
  reading.lastAt = lastAt ∧
    ∀ e ∈ reading.usageTail, e.atEpoch ≤ lastAt

instance
    (lastAt : Nat)
    (reading : Reading) :
    Decidable (Settled lastAt reading) :=
  inferInstanceAs
    (Decidable
      (reading.lastAt = lastAt ∧
        ∀ e ∈ reading.usageTail, e.atEpoch ≤ lastAt))

/- The last new entry of a reading is the reading's own. -/
theorem getLast?_newEntries
    {s : State}
    {reading : Reading}
    {last : UsageEntry}
    (hLast : reading.usageTail.getLast? = some last)
    (hNewer : s.lastSeenAt < last.atEpoch) :
    (Poll.newEntries s reading).getLast? = some last := by
  rcases List.getLast?_eq_some_iff.mp hLast with
    ⟨init, hInit⟩
  unfold Poll.newEntries
  rw [hInit, List.filter_append]
  simp [hNewer]

namespace State

/- A step on a settled transcript has seen its end. -/
theorem le_stepWith_lastSeenAt
    {lastAt : Nat}
    {reading : Reading}
    (hSettled : Settled lastAt reading)
    (s : State)
    (arm : Option ArmFile)
    (now : Nat)
    (autoArm : Bool) :
    lastAt ≤
      (s.stepWith reading arm now
        autoArm).state.lastSeenAt := by
  cases hBaselined : s.baselined with
  | false =>
      rw [stepWith_of_not_baselined hBaselined]
      rcases Poll.baseline_state (Poll.readArm s arm now)
        reading now with ⟨_, hState, _⟩
      rw [hState]
      exact Nat.le_of_eq hSettled.1.symm
  | true =>
      by_cases hSeen : lastAt ≤ s.lastSeenAt
      · have hNone : NoNewer s reading := by
          intro e hMem
          exact Nat.le_trans (hSettled.2 e hMem) hSeen
        rw [stepWith_lastSeenAt_of_noNewer hBaselined hNone]
        exact hSeen
      · rw [stepWith_lastSeenAt hBaselined]
        have hLastAt := hSettled.1
        unfold Reading.lastAt at hLastAt
        cases hLast : reading.usageTail.getLast? with
        | none =>
            rw [hLast] at hLastAt
            simp only [Option.map_none,
              Option.getD_none] at hLastAt
            omega
        | some last =>
            rw [hLast] at hLastAt
            simp only [Option.map_some,
              Option.getD_some] at hLastAt
            rw [getLast?_newEntries hLast (by omega)]
            exact Nat.le_of_eq hLastAt.symm

end State

end Keepwarm

------------------------------------------------------------
-- Polls With A Pending Wake
------------------------------------------------------------

namespace Keepwarm

/- No request the step is about to read answers the wake. -/
def Unanswered
    (s : State)
    (reading : Reading)
    (pinged : Nat) : Prop :=
  if s.baselined then
    ∀ e ∈ Poll.newEntries s reading, e.atEpoch < pinged
  else reading.lastAt < pinged

/- The window stands, or there is none, in the ten minutes. -/
structure KeepsPing
    (s : State)
    (arm : Option ArmFile)
    (now pinged : Nat) : Prop where
  pending : s.pingedAt = some pinged
  window :
    now < armDeadline arm ∨
      (armDeadline arm = 0 ∧ s.deadline = 0)
  inTime : now ≤ pinged + (ttlSecs - pingAfterSecs)

namespace Poll

/- A miss keeps the wake, and any window it arms is open. -/
theorem scoreMiss_pinged
    (p : Poll)
    (entry : UsageEntry)
    (now : Nat)
    (autoArm : Bool) :
    (p.scoreMiss entry now autoArm).state.pingedAt =
        p.state.pingedAt ∧
      ((p.scoreMiss entry now autoArm).state.deadline =
          p.state.deadline ∨
        now <
          (p.scoreMiss entry now autoArm).state.deadline) := by
  unfold scoreMiss
  split
  · dsimp only
    split
    · rename_i hArms
      refine ⟨rfl, Or.inr ?_⟩
      simp only [autoArms, Bool.and_eq_true,
        decide_eq_true_eq] at hArms
      exact hArms.1.2
    · exact ⟨rfl, Or.inl rfl⟩
  · exact ⟨rfl, Or.inl rfl⟩

/- An earlier request leaves a wake's verdict open. -/
theorem scoreVerdict_of_earlier
    {p : Poll}
    {entry : UsageEntry}
    {pinged : Nat}
    (hPinged : p.state.pingedAt = some pinged)
    (hEarlier : entry.atEpoch < pinged) :
    p.scoreVerdict entry = p := by
  unfold scoreVerdict
  rw [hPinged]
  exact if_neg (by omega)

theorem scoreEntry_pinged
    {p : Poll}
    {entry : UsageEntry}
    {pinged : Nat}
    (hPinged : p.state.pingedAt = some pinged)
    (hEarlier : entry.atEpoch < pinged)
    (now : Nat)
    (autoArm : Bool) :
    (scoreEntry now autoArm p entry).state.pingedAt =
        some pinged ∧
      ((scoreEntry now autoArm p entry).state.deadline =
          p.state.deadline ∨
        now <
          (scoreEntry now autoArm p
            entry).state.deadline) := by
  have hNamed :
      ∀ named : Poll,
        named.state.pingedAt = some pinged →
        named.state.deadline = p.state.deadline →
          ((named.scoreMiss entry now
                autoArm).scoreVerdict entry).state.pingedAt =
              some pinged ∧
            (((named.scoreMiss entry now
                  autoArm).scoreVerdict
                entry).state.deadline = p.state.deadline ∨
              now <
                ((named.scoreMiss entry now
                    autoArm).scoreVerdict
                  entry).state.deadline) := by
    intro named hNamedPinged hDeadline
    have hMiss := scoreMiss_pinged named entry now autoArm
    have hKept := hMiss.1.trans hNamedPinged
    rw [scoreVerdict_of_earlier hKept hEarlier, ← hDeadline]
    exact ⟨hKept, hMiss.2⟩
  unfold scoreEntry
  split
  · exact hNamed { p with state.model := entry.model } hPinged
      rfl
  · exact hNamed p hPinged rfl

theorem foldl_scoreEntry_pinged
    (now : Nat)
    (autoArm : Bool)
    {entries : List UsageEntry}
    {p : Poll}
    {pinged : Nat}
    (hPinged : p.state.pingedAt = some pinged)
    (hEarlier : ∀ e ∈ entries, e.atEpoch < pinged) :
    (entries.foldl (scoreEntry now autoArm)
        p).state.pingedAt = some pinged ∧
      ((entries.foldl (scoreEntry now autoArm)
          p).state.deadline = p.state.deadline ∨
        now <
          (entries.foldl (scoreEntry now autoArm)
            p).state.deadline) := by
  induction entries generalizing p with
  | nil => exact ⟨hPinged, Or.inl rfl⟩
  | cons entry rest ih =>
      have hEntry :=
        scoreEntry_pinged hPinged
          (hEarlier entry (by simp)) now autoArm
      have hRest :=
        ih hEntry.1
          (fun e hMem =>
            hEarlier e (List.mem_cons_of_mem _ hMem))
      refine ⟨hRest.1, ?_⟩
      rw [List.foldl_cons]
      rcases hRest.2 with hSame | hOpen
      · rw [hSame]
        exact hEntry.2
      · exact Or.inr hOpen

end Poll

namespace State

/- The arm file is read without touching the wake. -/
theorem readArm_keepsPing
    {s : State}
    {arm : Option ArmFile}
    {now pinged : Nat}
    (hKeeps : KeepsPing s arm now pinged) :
    (Poll.readArm s arm now).state.pingedAt =
      some pinged := by
  rw [Poll.readArm_state]
  have hNot :
      ¬ (armDeadline arm ≠ s.deadline ∧
        armDeadline arm ≤ now) := by
    rintro ⟨hOther, hOver⟩
    rcases hKeeps.window with hOpen | ⟨hZero, hNone⟩
    · omega
    · exact hOther (hZero.trans hNone.symm)
  rw [if_neg hNot]
  exact hKeeps.pending

/- A poll keeps its own pending wake. -/
theorem stepWith_keepsPing
    {s : State}
    {reading : Reading}
    {arm : Option ArmFile}
    {now pinged : Nat}
    (hKeeps : KeepsPing s arm now pinged)
    (hUnanswered : Unanswered s reading pinged)
    (autoArm : Bool) :
    (s.stepWith reading arm now autoArm).state.pingedAt =
      some pinged := by
  have hRead := readArm_keepsPing hKeeps
  cases hBaselined : s.baselined with
  | false =>
      simp only [Unanswered, hBaselined, Bool.false_eq_true,
        if_false] at hUnanswered
      rw [stepWith_of_not_baselined hBaselined]
      have hOpen :
          Poll.answered (some pinged) reading.lastAt =
            false := by
        simpa [Poll.answered] using hUnanswered
      simp only [Poll.baseline, Poll.log_state, hRead, hOpen,
        Bool.false_eq_true, if_false]
  | true =>
      simp only [Unanswered, hBaselined, if_true]
        at hUnanswered
      rw [stepWith_of_baselined hBaselined]
      have hNew :
          ∀ e ∈ Poll.newEntries
              (Poll.readArm s arm now).state reading,
            e.atEpoch < pinged := by
        unfold Poll.newEntries
        rw [Poll.readArm_lastSeenAt]
        exact hUnanswered
      have hFold :=
        Poll.foldl_scoreEntry_pinged now autoArm hRead hNew
      have hScored :
          ((Poll.readArm s arm now).scoreEntries reading now
                autoArm).state.pingedAt = some pinged ∧
            (((Poll.readArm s arm now).scoreEntries reading
                  now autoArm).state.deadline =
                armDeadline arm ∨
              now <
                ((Poll.readArm s arm now).scoreEntries
                  reading now autoArm).state.deadline) := by
        rw [Poll.readArm_deadline] at hFold
        unfold Poll.scoreEntries
        dsimp only
        split <;> exact hFold
      generalize
        (Poll.readArm s arm now).scoreEntries reading now
          autoArm = p at hScored ⊢
      have hWindow := hKeeps.window
      have hInTime := hKeeps.inTime
      have hEnd := Poll.finish_cases p now
      generalize p.finish now = q at hEnd ⊢
      cases hEnd with
      | quiet _ _ => exact hScored.1
      | disarmed _ _ hWhy =>
          exfalso
          cases hWhy with
          | windowEnded hArmed hOver => omega
          | silence late hPinged hLate =>
              rw [hScored.1, Option.some.injEq] at hPinged
              omega
          | lapsed _ hNone _ _ => simp [hScored.1] at hNone
      | woke _ hWakes =>
          have hNone := hWakes.unpinged
          simp [hScored.1] at hNone

end State

end Keepwarm

------------------------------------------------------------
-- Polls Without One
------------------------------------------------------------

namespace Keepwarm

/- Whether one of the new entries pays a cold write. -/
def paysColdIn : Nat → List UsageEntry → Bool
| _, [] => false
| prior, entry :: rest =>
    rewrote prior entry || paysColdIn entry.context rest

namespace Poll

/- A request that pays nothing cold changes no record. -/
theorem scoreEntry_of_unpinged
    {p : Poll}
    {entry : UsageEntry}
    (hUnpinged : p.state.pingedAt = none)
    (hWarm : rewrote p.state.ctx entry = false)
    (now : Nat)
    (autoArm : Bool) :
    (scoreEntry now autoArm p entry).out = p.out ∧
      (scoreEntry now autoArm p entry).state.pingedAt =
        none ∧
      (scoreEntry now autoArm p entry).state.deadline =
        p.state.deadline := by
  unfold scoreEntry
  split
  · simp [scoreMiss, scoreVerdict, hWarm, hUnpinged]
  · simp [scoreMiss, scoreVerdict, hWarm, hUnpinged]

theorem foldl_scoreEntry_of_unpinged
    {entries : List UsageEntry}
    {p : Poll}
    (hUnpinged : p.state.pingedAt = none)
    (hWarm : paysColdIn p.state.ctx entries = false)
    (now : Nat)
    (autoArm : Bool) :
    (entries.foldl (scoreEntry now autoArm) p).out = p.out ∧
      (entries.foldl (scoreEntry now autoArm)
        p).state.pingedAt = none ∧
      (entries.foldl (scoreEntry now autoArm)
        p).state.deadline = p.state.deadline := by
  induction entries generalizing p with
  | nil => exact ⟨rfl, hUnpinged, rfl⟩
  | cons entry rest ih =>
      rw [paysColdIn, Bool.or_eq_false_iff] at hWarm
      rcases scoreEntry_of_unpinged hUnpinged hWarm.1 now
        autoArm with
        ⟨hOut, hNone, hDeadline⟩
      rcases ih hNone hWarm.2 with
        ⟨hRestOut, hRestNone, hRestDeadline⟩
      exact ⟨hRestOut.trans hOut, hRestNone,
        hRestDeadline.trans hDeadline⟩

end Poll

/-
  A poll that holds no wake is left alone: its window is the
  file's and not over, and it reads no paid cold write.
-/
structure Undisturbed
    (s : State)
    (reading : Reading)
    (arm : Option ArmFile)
    (now : Nat) : Prop where
  unpinged : s.pingedAt = none
  same : armDeadline arm = s.deadline
  standing :
    armDeadline arm = 0 ∨ now < armDeadline arm
  warm :
    s.baselined = true →
      paysColdIn s.ctx (Poll.newEntries s reading) = false

namespace State

/-
  Such a poll leaves the ledger, or records a wake of its
  own, or stops because the cache's hour is over.
-/
theorem stepWith_of_undisturbed
    {s : State}
    {reading : Reading}
    {arm : Option ArmFile}
    {now : Nat}
    (hLeft : Undisturbed s reading arm now)
    (autoArm : Bool) :
    (s.stepWith reading arm now autoArm).out.changed =
        false ∨
      (s.stepWith reading arm now autoArm).state.pingedAt =
        some now ∨
      ttlSecs ≤
        now -
          (s.stepWith reading arm now
            autoArm).state.lastSeenAt := by
  have hRead : Poll.readArm s arm now = ⟨s, {}⟩ := by
    unfold Poll.readArm
    rw [hLeft.same]
    simp
  cases hBaselined : s.baselined with
  | false =>
      rw [stepWith_of_not_baselined hBaselined, hRead]
      left
      simp [Poll.baseline, hLeft.unpinged, Poll.answered]
  | true =>
      rw [stepWith_of_baselined hBaselined, hRead]
      have hFold :=
        Poll.foldl_scoreEntry_of_unpinged (p := ⟨s, {}⟩)
          hLeft.unpinged (hLeft.warm hBaselined) now autoArm
      have hScored :
          (Poll.scoreEntries ⟨s, {}⟩ reading now
                autoArm).out.changed = false ∧
            (Poll.scoreEntries ⟨s, {}⟩ reading now
                autoArm).state.pingedAt = none ∧
            (Poll.scoreEntries ⟨s, {}⟩ reading now
                autoArm).state.deadline = s.deadline := by
        unfold Poll.scoreEntries
        dsimp only
        split
        · exact ⟨by simp [hFold.1], hFold.2.1, hFold.2.2⟩
        · exact ⟨by simp [hFold.1], hFold.2.1, hFold.2.2⟩
      generalize
        Poll.scoreEntries ⟨s, {}⟩ reading now autoArm = p
        at hScored ⊢
      have hStanding := hLeft.standing
      have hSame := hLeft.same
      have hEnd := Poll.finish_cases p now
      generalize p.finish now = q at hEnd ⊢
      cases hEnd with
      | quiet _ _ => exact Or.inl hScored.1
      | woke _ _ => exact Or.inr (Or.inl rfl)
      | disarmed _ _ hWhy =>
          cases hWhy with
          | windowEnded hArmed hOver =>
              exfalso
              omega
          | silence late hPinged _ =>
              simp [hScored.2.1] at hPinged
          | lapsed _ _ _ hIdle =>
              exact Or.inr (Or.inr hIdle)

end State

end Keepwarm
