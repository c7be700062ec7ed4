import AgentWays.Keepwarm.Step
import Mathlib.Tactic.Common

/-
  What one poll can do.

  The last three parts of a poll have three shapes between
  them, said once by `Poll.finish_cases`: nothing, one
  disarm, or one wake. The facts about a whole step follow
  from that and from the frame lemmas of the earlier parts.

  Key definitions include:
    * `Keepwarm.Poll.Finished`
    * `Keepwarm.NoNewer`
    * `Keepwarm.Woken`

  The step lemmas are:
    * `Keepwarm.State.stepWith_policy`
    * `Keepwarm.State.stepWith_observations`
    * `Keepwarm.State.stepWith_of_noNewer`
    * `Keepwarm.State.stepWith_of_pinged`
-/

------------------------------------------------------------
-- The Arm File And The Baseline
------------------------------------------------------------

namespace Keepwarm

namespace Poll

@[simp] theorem log_state
    (p : Poll)
    (line : String) :
    (p.log line).state = p.state := rfl

@[simp] theorem log_observations
    (p : Poll)
    (line : String) :
    (p.log line).out.observations =
      p.out.observations := rfl

@[simp] theorem log_armWrite
    (p : Poll)
    (line : String) :
    (p.log line).out.armWrite = p.out.armWrite := rfl

@[simp] theorem log_autoArm
    (p : Poll)
    (line : String) :
    (p.log line).out.autoArm = p.out.autoArm := rfl

@[simp] theorem log_changed
    (p : Poll)
    (line : String) :
    (p.log line).out.changed = p.out.changed := rfl

/- Reading the arm file leaves all but the window's marks. -/
theorem readArm_state
    (s : State)
    (arm : Option ArmFile)
    (now : Nat) :
    (readArm s arm now).state =
      { s with
        deadline := armDeadline arm
        pingedAt :=
          if armDeadline arm ≠ s.deadline ∧
              armDeadline arm ≤ now then none
          else s.pingedAt
        stopped :=
          if armDeadline arm ≠ s.deadline then none
          else s.stopped } := by
  unfold readArm
  by_cases hSame : armDeadline arm = s.deadline
  · simp [hSame]
  · by_cases hLate : now < armDeadline arm
    · have hNot : ¬ armDeadline arm ≤ now := by omega
      simp [hSame, hLate, hNot]
    · have hLe : armDeadline arm ≤ now := by omega
      simp [hSame, hLate, hLe]

theorem readArm_out
    (s : State)
    (arm : Option ArmFile)
    (now : Nat) :
    (readArm s arm now).out =
      { changed := decide (armDeadline arm ≠ s.deadline) } := by
  unfold readArm
  by_cases hSame : armDeadline arm = s.deadline
  · simp [hSame]
  · simp [hSame]

@[simp] theorem readArm_deadline
    (s : State)
    (arm : Option ArmFile)
    (now : Nat) :
    (readArm s arm now).state.deadline =
      armDeadline arm := by
  rw [readArm_state]

@[simp] theorem readArm_baselined
    (s : State)
    (arm : Option ArmFile)
    (now : Nat) :
    (readArm s arm now).state.baselined =
      s.baselined := by
  rw [readArm_state]

@[simp] theorem readArm_lastSeenAt
    (s : State)
    (arm : Option ArmFile)
    (now : Nat) :
    (readArm s arm now).state.lastSeenAt =
      s.lastSeenAt := by
  rw [readArm_state]

@[simp] theorem readArm_ctx
    (s : State)
    (arm : Option ArmFile)
    (now : Nat) :
    (readArm s arm now).state.ctx = s.ctx := by
  rw [readArm_state]

@[simp] theorem readArm_lastPing
    (s : State)
    (arm : Option ArmFile)
    (now : Nat) :
    (readArm s arm now).state.lastPing = s.lastPing := by
  rw [readArm_state]

@[simp] theorem readArm_policy
    (s : State)
    (arm : Option ArmFile)
    (now : Nat) :
    (readArm s arm now).state.policy = s.policy := by
  rw [readArm_state]

/- A first poll's state, but for a wake already answered. -/
theorem baseline_state
    (p : Poll)
    (reading : Reading)
    (now : Nat) :
    ∃ pinged,
      (p.baseline reading now).state =
        { p.state with
          baselined := true
          lastSeenAt := reading.lastAt
          ctx := reading.tokensUsed
          model := reading.model
          pingedAt := pinged } ∧
      (pinged = none ∨ pinged = p.state.pingedAt) := by
  unfold baseline
  simp only [log_state]
  split
  · exact ⟨none, rfl, Or.inl rfl⟩
  · exact ⟨p.state.pingedAt, rfl, Or.inr rfl⟩

/- A first poll decides nothing but the ledger's rewrite. -/
theorem baseline_out
    (p : Poll)
    (reading : Reading)
    (now : Nat) :
    (p.baseline reading now).out.observations =
        p.out.observations ∧
      (p.baseline reading now).out.armWrite =
        p.out.armWrite ∧
      (p.baseline reading now).out.autoArm =
        p.out.autoArm := by
  unfold baseline
  simp only [log_observations, log_armWrite, log_autoArm]
  split <;> exact ⟨rfl, rfl, rfl⟩

end Poll

end Keepwarm

------------------------------------------------------------
-- The Scored Entries
------------------------------------------------------------

namespace Keepwarm

namespace Poll

/- What scoring one entry leaves alone. -/
structure ScoreFrame (p q : Poll) : Prop where
  policy : q.state.policy = p.state.policy
  baselined : q.state.baselined = p.state.baselined
  observations :
    q.out.observations = p.out.observations

theorem ScoreFrame.refl
    (p : Poll) : ScoreFrame p p :=
  ⟨rfl, rfl, rfl⟩

theorem ScoreFrame.trans
    {p q r : Poll}
    (hFirst : ScoreFrame p q)
    (hSecond : ScoreFrame q r) :
    ScoreFrame p r :=
  ⟨hSecond.policy.trans hFirst.policy,
    hSecond.baselined.trans hFirst.baselined,
    hSecond.observations.trans hFirst.observations⟩

theorem scoreMiss_frame
    (p : Poll)
    (entry : UsageEntry)
    (now : Nat)
    (autoArm : Bool) :
    ScoreFrame p (p.scoreMiss entry now autoArm) := by
  unfold scoreMiss
  split
  · dsimp only
    split <;> exact ⟨rfl, rfl, rfl⟩
  · exact ScoreFrame.refl p

theorem scoreVerdict_frame
    (p : Poll)
    (entry : UsageEntry) :
    ScoreFrame p (p.scoreVerdict entry) := by
  unfold scoreVerdict
  split
  · exact ScoreFrame.refl p
  · split
    · dsimp only
      split <;> exact ⟨rfl, rfl, rfl⟩
    · exact ScoreFrame.refl p

theorem scoreEntry_frame
    (now : Nat)
    (autoArm : Bool)
    (p : Poll)
    (entry : UsageEntry) :
    ScoreFrame p (scoreEntry now autoArm p entry) := by
  unfold scoreEntry
  split
  · have hMiss :=
      scoreMiss_frame
        { p with state.model := entry.model }
        entry now autoArm
    have hBoth :=
      hMiss.trans (scoreVerdict_frame _ entry)
    exact ⟨hBoth.policy, hBoth.baselined,
      hBoth.observations⟩
  · have hBoth :=
      (scoreMiss_frame p entry now autoArm).trans
        (scoreVerdict_frame _ entry)
    exact ⟨hBoth.policy, hBoth.baselined,
      hBoth.observations⟩

theorem foldl_scoreEntry_frame
    (now : Nat)
    (autoArm : Bool)
    (entries : List UsageEntry)
    (p : Poll) :
    ScoreFrame p
      (entries.foldl (scoreEntry now autoArm) p) := by
  induction entries generalizing p with
  | nil => exact ScoreFrame.refl p
  | cons entry rest ih =>
      exact (scoreEntry_frame now autoArm p entry).trans
        (ih (scoreEntry now autoArm p entry))

theorem scoreEntries_frame
    (p : Poll)
    (reading : Reading)
    (now : Nat)
    (autoArm : Bool) :
    ScoreFrame p
      (p.scoreEntries reading now autoArm) := by
  have hFold :=
    foldl_scoreEntry_frame now autoArm
      (newEntries p.state reading) p
  unfold scoreEntries
  dsimp only
  split
  · exact ⟨hFold.policy, hFold.baselined,
      hFold.observations⟩
  · exact hFold

end Poll

end Keepwarm

------------------------------------------------------------
-- The Three Ends Of A Poll
------------------------------------------------------------

namespace Keepwarm

namespace Poll

/- Why a poll's end disarms. -/
inductive Disarms (s : State) (now : Nat) : Prop
| windowEnded
    (hArmed : 0 < s.deadline)
    (hOver : s.deadline ≤ now)
| silence
    (pinged : Nat)
    (hPinged : s.pingedAt = some pinged)
    (hLate : ttlSecs - pingAfterSecs < now - pinged)
| lapsed
    (hOpen : now < s.deadline)
    (hNone : s.pingedAt = none)
    (hSeen : 0 < s.lastSeenAt)
    (hIdle : ttlSecs ≤ now - s.lastSeenAt)

/- When a poll's end fires a wake. -/
structure Wakes (s : State) (now : Nat) : Prop where
  isOpen : now < s.deadline
  unpinged : s.pingedAt = none
  seen : 0 < s.lastSeenAt
  due : pingAfterSecs ≤ now - s.lastSeenAt
  warm : now - s.lastSeenAt < ttlSecs
  big : bigTokens ≤ s.ctx

/- The three shapes of a poll's end. -/
inductive Finished (p : Poll) (now : Nat) : Poll → Prop
| quiet
    (hNot : ¬ Disarms p.state now)
    (hSilent : ¬ Wakes p.state now) :
    Finished p now p
| disarmed
    (why : Option String)
    (logs : List String)
    (hWhy : Disarms p.state now) :
    Finished p now
      { state :=
          { p.state with
            deadline := 0
            pingedAt := none
            stopped := why }
        out :=
          { p.out with
            logs := logs
            armWrite := some 0
            changed := true } }
| woke
    (line : Float × String)
    (hWakes : Wakes p.state now) :
    Finished p now
      { state := { p.state with pingedAt := some now }
        out :=
          { p.out with
            changed := true
            observations :=
              p.out.observations ++ [line] } }

/- With no window open no wake fires. -/
theorem wake_eq_self_of_deadline_eq_zero
    {p : Poll}
    {now : Nat}
    (hZero : p.state.deadline = 0) :
    p.wake now = p := by
  unfold wake
  simp [hZero]

/- A silent wake stops, and only a silent wake does. -/
theorem judgeSilence_of_pinged
    {p : Poll}
    {now pinged : Nat}
    (hPinged : p.state.pingedAt = some pinged) :
    p.judgeSilence now =
      if ttlSecs - pingAfterSecs < now - pinged then
        (p.log ("stopped: " ++
          "the wake produced no turn within ten minutes")).disarm
          (some "the wake produced no turn within ten minutes")
      else p := by
  simp only [judgeSilence, hPinged, gt_iff_lt]

/- The last part's three shapes while no wake is pending. -/
theorem wake_cases
    {p : Poll}
    {now : Nat}
    (hNone : p.state.pingedAt = none)
    (hNotEnded :
      ¬ (0 < p.state.deadline ∧ p.state.deadline ≤ now)) :
    Finished p now (p.wake now) := by
  have hNotDisarms :
      ¬ (now < p.state.deadline ∧ 0 < p.state.lastSeenAt ∧
        ttlSecs ≤ now - p.state.lastSeenAt) →
      ¬ Disarms p.state now := by
    intro hNotLapsed hDisarms
    cases hDisarms with
    | windowEnded hArmed hOver =>
        exact hNotEnded ⟨hArmed, hOver⟩
    | silence pinged hPinged _ =>
        simp [hNone] at hPinged
    | lapsed hOpen _ hSeen hIdle =>
        exact hNotLapsed ⟨hOpen, hSeen, hIdle⟩
  by_cases hOpen :
      p.state.deadline > now ∧ p.state.lastSeenAt > 0
  · by_cases hLapsed : now - p.state.lastSeenAt ≥ ttlSecs
    · have hWake :
          ∃ logs why,
            p.wake now =
              { state :=
                  { p.state with
                    deadline := 0
                    pingedAt := none
                    stopped := why }
                out :=
                  { p.out with
                    logs := logs
                    armWrite := some 0
                    changed := true } } := by
        simp only [wake, hNone, hOpen, hLapsed, and_self,
          if_true]
        exact ⟨_, _, rfl⟩
      rcases hWake with ⟨logs, why, hWake⟩
      rw [hWake]
      exact Finished.disarmed why logs
        (Disarms.lapsed hOpen.1 hNone hOpen.2 hLapsed)
    · have hNot : ¬ Disarms p.state now :=
        hNotDisarms (fun hAll => hLapsed hAll.2.2)
      by_cases hDue :
          now - p.state.lastSeenAt ≥ pingAfterSecs ∧
            p.state.ctx ≥ bigTokens
      · have hWake : p.wake now =
            { state := { p.state with pingedAt := some now }
              out :=
                { p.out with
                  changed := true
                  observations := p.out.observations ++
                    [(3.0,
                      wakeLine (now - p.state.lastSeenAt)
                        ttlSecs p.state.ctx)] } } := by
          simp [wake, hNone, hOpen, hLapsed, hDue]
        rw [hWake]
        exact Finished.woke _
          { isOpen := hOpen.1
            unpinged := hNone
            seen := hOpen.2
            due := hDue.1
            warm := by omega
            big := hDue.2 }
      · have hWake : p.wake now = p := by
          simp [wake, hNone, hOpen, hLapsed, hDue]
        rw [hWake]
        exact Finished.quiet hNot
          (fun hWakes => hDue ⟨hWakes.due, hWakes.big⟩)
  · have hWake : p.wake now = p := by
      unfold wake
      rw [if_neg]
      rintro ⟨hDeadline, _, hSeen⟩
      exact hOpen ⟨hDeadline, hSeen⟩
    rw [hWake]
    exact Finished.quiet
      (hNotDisarms (fun hAll => hOpen ⟨hAll.1, hAll.2.1⟩))
      (fun hWakes => hOpen ⟨hWakes.isOpen, hWakes.seen⟩)

theorem finish_cases
    (p : Poll)
    (now : Nat) :
    Finished p now (p.finish now) := by
  unfold finish
  by_cases hEnded :
      p.state.deadline > 0 ∧ now ≥ p.state.deadline
  · -- The window's end leaves nothing for the later parts.
    have hEnd : p.endWindow now =
        (p.log "window ended").disarm none := by
      simp [endWindow, hEnded]
    have hSilence :
        ((p.log "window ended").disarm none).judgeSilence
            now = (p.log "window ended").disarm none := by
      simp [judgeSilence, disarm]
    rw [hEnd, hSilence, wake_eq_self_of_deadline_eq_zero rfl]
    exact Finished.disarmed none _
      (Disarms.windowEnded hEnded.1 hEnded.2)
  · have hEnd : p.endWindow now = p := by
      simp [endWindow, hEnded]
    rw [hEnd]
    cases hPinged : p.state.pingedAt with
    | none =>
        have hSilence : p.judgeSilence now = p := by
          simp [judgeSilence, hPinged]
        rw [hSilence]
        exact wake_cases hPinged hEnded
    | some pinged =>
        rw [judgeSilence_of_pinged hPinged]
        split
        · rename_i hLate
          rw [wake_eq_self_of_deadline_eq_zero rfl]
          exact Finished.disarmed _ _
            (Disarms.silence pinged hPinged hLate)
        · rename_i hInTime
          have hWake : p.wake now = p := by
            simp [wake, hPinged]
          rw [hWake]
          refine Finished.quiet ?_ ?_
          · intro hDisarms
            cases hDisarms with
            | windowEnded hArmed hOver =>
                exact hEnded ⟨hArmed, hOver⟩
            | silence pinged' hPinged' hLate =>
                rw [hPinged, Option.some.injEq] at hPinged'
                subst hPinged'
                exact hInTime hLate
            | lapsed _ hNone _ _ =>
                simp [hPinged] at hNone
          · intro hWakes
            simpa [hPinged] using hWakes.unpinged

end Poll

end Keepwarm

------------------------------------------------------------
-- Whole Steps
------------------------------------------------------------

namespace Keepwarm

/- No usage entry is newer than the last request seen. -/
def NoNewer
    (s : State)
    (reading : Reading) : Prop :=
  ∀ e ∈ reading.usageTail, e.atEpoch ≤ s.lastSeenAt

instance
    (s : State)
    (reading : Reading) :
    Decidable (NoNewer s reading) :=
  inferInstanceAs
    (Decidable
      (∀ e ∈ reading.usageTail, e.atEpoch ≤ s.lastSeenAt))

/- The context a reading leaves when nothing is newer. -/
def readCtx
    (s : State)
    (reading : Reading) : Nat :=
  if reading.tokensUsed > 0 then reading.tokensUsed
  else s.ctx

theorem Poll.newEntries_eq_nil
    {s : State}
    {reading : Reading}
    (hNone : NoNewer s reading) :
    newEntries s reading = [] := by
  apply List.filter_eq_nil_iff.mpr
  intro e hMem
  have hLe := hNone e hMem
  simp only [gt_iff_lt, decide_eq_true_eq]
  omega

theorem Poll.scoreEntries_of_noNewer
    {p : Poll}
    {reading : Reading}
    (hNone : NoNewer p.state reading)
    (now : Nat)
    (autoArm : Bool) :
    p.scoreEntries reading now autoArm =
      { p with
        state.ctx := readCtx p.state reading } := by
  unfold Poll.scoreEntries readCtx
  rw [Poll.newEntries_eq_nil hNone]
  dsimp only [List.foldl_nil]
  split <;> rfl

/-
  What a step with an observation leaves: the wake's mark,
  and the window, the idle stretch and the context that
  allowed it.
-/
structure Woken (s : State) (now : Nat) : Prop where
  pinged : s.pingedAt = some now
  isOpen : now < s.deadline
  seen : 0 < s.lastSeenAt
  due : pingAfterSecs ≤ now - s.lastSeenAt
  warm : now - s.lastSeenAt < ttlSecs
  big : bigTokens ≤ s.ctx

namespace Poll

variable {p q : Poll} {now : Nat}

theorem Finished.policy
    (hEnd : Finished p now q) :
    q.state.policy = p.state.policy := by
  cases hEnd <;> rfl

theorem Finished.baselined
    (hEnd : Finished p now q) :
    q.state.baselined = p.state.baselined := by
  cases hEnd <;> rfl

theorem Finished.lastSeenAt
    (hEnd : Finished p now q) :
    q.state.lastSeenAt = p.state.lastSeenAt := by
  cases hEnd <;> rfl

theorem Finished.lastPing
    (hEnd : Finished p now q) :
    q.state.lastPing = p.state.lastPing := by
  cases hEnd <;> rfl

theorem Finished.observations
    (hEnd : Finished p now q) :
    q.out.observations = p.out.observations ∨
      (∃ line,
        q.out.observations =
          p.out.observations ++ [line]) ∧
      Woken q.state now := by
  cases hEnd with
  | quiet _ _ => exact Or.inl rfl
  | disarmed _ _ _ => exact Or.inl rfl
  | woke line hWakes =>
      refine Or.inr ⟨⟨line, rfl⟩, ?_⟩
      exact
        { pinged := rfl
          isOpen := hWakes.isOpen
          seen := hWakes.seen
          due := hWakes.due
          warm := hWakes.warm
          big := hWakes.big }

end Poll

namespace State

variable {s : State} {reading : Reading}
variable {arm : Option ArmFile} {now : Nat} {autoArm : Bool}

theorem stepWith_of_not_baselined
    (hBaselined : s.baselined = false) :
    s.stepWith reading arm now autoArm =
      (Poll.readArm s arm now).baseline reading now := by
  simp [stepWith, hBaselined]

theorem stepWith_of_baselined
    (hBaselined : s.baselined = true) :
    s.stepWith reading arm now autoArm =
      ((Poll.readArm s arm now).scoreEntries reading now
        autoArm).finish now := by
  simp [stepWith, hBaselined]

/- A step never touches the policy's marks. -/
theorem stepWith_policy
    (s : State)
    (reading : Reading)
    (arm : Option ArmFile)
    (now : Nat)
    (autoArm : Bool) :
    (s.stepWith reading arm now autoArm).state.policy =
      s.policy := by
  cases hBaselined : s.baselined with
  | false =>
      rw [stepWith_of_not_baselined hBaselined]
      rcases Poll.baseline_state (Poll.readArm s arm now)
        reading now with ⟨pinged, hState, _⟩
      rw [hState]
      exact Poll.readArm_policy s arm now
  | true =>
      rw [stepWith_of_baselined hBaselined]
      have hFrame :=
        Poll.scoreEntries_frame (Poll.readArm s arm now)
          reading now autoArm
      rw [(Poll.finish_cases _ now).policy, hFrame.policy,
        Poll.readArm_policy]

/- Every step leaves a baselined state. -/
theorem stepWith_baselined
    (s : State)
    (reading : Reading)
    (arm : Option ArmFile)
    (now : Nat)
    (autoArm : Bool) :
    (s.stepWith reading arm now autoArm).state.baselined =
      true := by
  cases hBaselined : s.baselined with
  | false =>
      rw [stepWith_of_not_baselined hBaselined]
      rcases Poll.baseline_state (Poll.readArm s arm now)
        reading now with ⟨pinged, hState, _⟩
      rw [hState]
  | true =>
      rw [stepWith_of_baselined hBaselined]
      have hFrame :=
        Poll.scoreEntries_frame (Poll.readArm s arm now)
          reading now autoArm
      rw [(Poll.finish_cases _ now).baselined,
        hFrame.baselined, Poll.readArm_baselined, hBaselined]

/- A step returns no observation, or one with its wake. -/
theorem stepWith_observations
    (s : State)
    (reading : Reading)
    (arm : Option ArmFile)
    (now : Nat)
    (autoArm : Bool) :
    (s.stepWith reading arm now
        autoArm).out.observations = [] ∨
      (∃ line,
        (s.stepWith reading arm now
          autoArm).out.observations = [line]) ∧
      Woken (s.stepWith reading arm now autoArm).state
        now := by
  cases hBaselined : s.baselined with
  | false =>
      rw [stepWith_of_not_baselined hBaselined]
      left
      rw [(Poll.baseline_out _ reading now).1,
        Poll.readArm_out]
  | true =>
      rw [stepWith_of_baselined hBaselined]
      have hNone :
          ((Poll.readArm s arm now).scoreEntries reading now
            autoArm).out.observations = [] := by
        rw [(Poll.scoreEntries_frame _ reading now
          autoArm).observations, Poll.readArm_out]
      have hEnd :=
        (Poll.finish_cases
          ((Poll.readArm s arm now).scoreEntries reading now
            autoArm) now).observations
      simpa only [hNone, List.nil_append] using hEnd

end State

end Keepwarm

------------------------------------------------------------
-- Steps That Read Nothing New
------------------------------------------------------------

namespace Keepwarm

/- A poll once it has read a transcript with no new entry. -/
def Poll.heard
    (s : State)
    (reading : Reading)
    (arm : Option ArmFile)
    (now : Nat) : Poll :=
  { Poll.readArm s arm now with
    state :=
      { (Poll.readArm s arm now).state with
        ctx := readCtx s reading } }

namespace State

variable {s : State} {reading : Reading}
variable {arm : Option ArmFile} {now : Nat} {autoArm : Bool}

theorem stepWith_of_noNewer
    (hBaselined : s.baselined = true)
    (hNone : NoNewer s reading) :
    s.stepWith reading arm now autoArm =
      (Poll.heard s reading arm now).finish now := by
  have hHeard :
      NoNewer (Poll.readArm s arm now).state reading := by
    intro e hMem
    rw [Poll.readArm_lastSeenAt]
    exact hNone e hMem
  rw [stepWith_of_baselined hBaselined,
    Poll.scoreEntries_of_noNewer hHeard]
  unfold Poll.heard readCtx
  rw [Poll.readArm_ctx]

theorem stepWith_finished_of_noNewer
    (hBaselined : s.baselined = true)
    (hNone : NoNewer s reading)
    (arm : Option ArmFile)
    (now : Nat)
    (autoArm : Bool) :
    Poll.Finished (Poll.heard s reading arm now) now
      (s.stepWith reading arm now autoArm) := by
  rw [stepWith_of_noNewer hBaselined hNone]
  exact Poll.finish_cases _ now

theorem stepWith_lastSeenAt_of_noNewer
    (hBaselined : s.baselined = true)
    (hNone : NoNewer s reading)
    (arm : Option ArmFile)
    (now : Nat)
    (autoArm : Bool) :
    (s.stepWith reading arm now autoArm).state.lastSeenAt =
      s.lastSeenAt := by
  rw [(stepWith_finished_of_noNewer hBaselined hNone arm
    now autoArm).lastSeenAt]
  exact Poll.readArm_lastSeenAt s arm now

theorem stepWith_lastPing_of_noNewer
    (hBaselined : s.baselined = true)
    (hNone : NoNewer s reading)
    (arm : Option ArmFile)
    (now : Nat)
    (autoArm : Bool) :
    (s.stepWith reading arm now autoArm).state.lastPing =
      s.lastPing := by
  rw [(stepWith_finished_of_noNewer hBaselined hNone arm
    now autoArm).lastPing]
  exact Poll.readArm_lastPing s arm now

/- Such a step keeps the file's deadline or disarms. -/
theorem stepWith_deadline_of_noNewer
    (hBaselined : s.baselined = true)
    (hNone : NoNewer s reading)
    (arm : Option ArmFile)
    (now : Nat)
    (autoArm : Bool) :
    (s.stepWith reading arm now autoArm).state.deadline =
        armDeadline arm ∨
      (s.stepWith reading arm now autoArm).state.deadline =
        0 := by
  have hEnd :=
    stepWith_finished_of_noNewer hBaselined hNone arm now
      autoArm
  have hRead := Poll.readArm_deadline s arm now
  generalize s.stepWith reading arm now autoArm = q at hEnd ⊢
  cases hEnd with
  | quiet _ _ => exact Or.inl hRead
  | disarmed _ _ _ => exact Or.inr rfl
  | woke _ _ => exact Or.inl hRead

/- Such a step writes no deadline but the disarmed one. -/
theorem stepWith_armWrite_of_noNewer
    (hBaselined : s.baselined = true)
    (hNone : NoNewer s reading)
    (arm : Option ArmFile)
    (now : Nat)
    (autoArm : Bool) :
    (s.stepWith reading arm now autoArm).out.armWrite =
        none ∨
      (s.stepWith reading arm now autoArm).out.armWrite =
        some 0 := by
  have hEnd :=
    stepWith_finished_of_noNewer hBaselined hNone arm now
      autoArm
  have hRead :
      (Poll.heard s reading arm now).out.armWrite = none := by
    simp [Poll.heard, Poll.readArm_out]
  generalize s.stepWith reading arm now autoArm = q at hEnd ⊢
  cases hEnd with
  | quiet _ _ => exact Or.inl hRead
  | disarmed _ _ _ => exact Or.inr rfl
  | woke _ _ => exact Or.inl hRead

/-
  A pending wake stays pending, or is dropped at a window's
  end or past the ten minutes; no second wake fires.
-/
theorem stepWith_of_pinged
    (hBaselined : s.baselined = true)
    (hNone : NoNewer s reading)
    {pinged : Nat}
    (hPinged : s.pingedAt = some pinged)
    (arm : Option ArmFile)
    (now : Nat)
    (autoArm : Bool) :
    (s.stepWith reading arm now
        autoArm).out.observations = [] ∧
      ((s.stepWith reading arm now
          autoArm).state.pingedAt = some pinged ∨
        (s.stepWith reading arm now
            autoArm).state.pingedAt = none ∧
          (armDeadline arm ≤ now ∨
            ttlSecs - pingAfterSecs < now - pinged)) := by
  have hEnd :=
    stepWith_finished_of_noNewer hBaselined hNone arm now
      autoArm
  have hObservations :
      (Poll.heard s reading arm now).out.observations =
        [] := by
    simp [Poll.heard, Poll.readArm_out]
  have hDeadline :
      (Poll.heard s reading arm now).state.deadline =
        armDeadline arm :=
    Poll.readArm_deadline s arm now
  have hKept :
      (Poll.heard s reading arm now).state.pingedAt =
          some pinged ∨
        (Poll.heard s reading arm now).state.pingedAt =
            none ∧ armDeadline arm ≤ now := by
    simp only [Poll.heard, Poll.readArm_state, hPinged]
    split
    · rename_i hCleared
      exact Or.inr ⟨rfl, hCleared.2⟩
    · exact Or.inl rfl
  generalize s.stepWith reading arm now autoArm = q at hEnd ⊢
  cases hEnd with
  | quiet _ _ =>
      refine ⟨hObservations, ?_⟩
      rcases hKept with hSome | ⟨hCleared, hOver⟩
      · exact Or.inl hSome
      · exact Or.inr ⟨hCleared, Or.inl hOver⟩
  | disarmed _ _ hWhy =>
      refine ⟨hObservations, Or.inr ⟨rfl, ?_⟩⟩
      cases hWhy with
      | windowEnded _ hOver =>
          rw [hDeadline] at hOver
          exact Or.inl hOver
      | silence t hSome hLate =>
          rcases hKept with hSame | ⟨hCleared, _⟩
          · rw [hSame, Option.some.injEq] at hSome
            subst hSome
            exact Or.inr hLate
          · simp [hCleared] at hSome
      | lapsed hOpen hCleared _ _ =>
          rcases hKept with hSame | ⟨_, hOver⟩
          · simp [hCleared] at hSame
          · exact Or.inl hOver
  | woke _ hWakes =>
      exfalso
      rcases hKept with hSame | ⟨_, hOver⟩
      · rw [hWakes.unpinged] at hSame
        simp at hSame
      · have hOpen := hWakes.isOpen
        omega

end State

end Keepwarm
