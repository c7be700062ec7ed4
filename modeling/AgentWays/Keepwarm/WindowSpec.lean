import AgentWays.Keepwarm.StepSpec

/-
  What a poll's scored entries do to the armed window.

  Unless one of the new entries is a paid cold write that
  arms a window of its own, a poll leaves the window as the
  file has it or disarms it.

  Key definitions include:
    * `Keepwarm.coldVerdict`
    * `Keepwarm.autoArmsIn`
    * `Keepwarm.Poll.KeepsArm`

  Main declarations:
    * `Keepwarm.State.stepWith_keepsArm`
    * `Keepwarm.State.stepWith_lastSeenAt`
-/

------------------------------------------------------------
-- The Window Across Scored Entries
------------------------------------------------------------

namespace Keepwarm

/- Whether an entry answers a pending wake with a cold read. -/
def coldVerdict
    (pinged : Option Nat)
    (prior : Nat)
    (entry : UsageEntry) : Bool :=
  Poll.answered pinged entry.atEpoch &&
    !(prior > 0 && entry.cacheRead ≥ prior / 2)

/-
  Whether one of the new entries is a paid cold write that
  arms a window, from the deadline, the pending wake and the
  context the entries start from.
-/
def autoArmsIn
    (now : Nat)
    (autoArm : Bool) :
    Nat → Option Nat → Nat → List UsageEntry → Bool
| _, _, _, [] => false
| deadline, pinged, prior, entry :: rest =>
    (rewrote prior entry &&
        autoArms deadline now autoArm entry) ||
      autoArmsIn now autoArm
        (if coldVerdict pinged prior entry then 0
        else deadline)
        (if Poll.answered pinged entry.atEpoch then none
        else pinged)
        entry.context rest

theorem autoArmsIn_false
    (now deadline prior : Nat)
    (pinged : Option Nat)
    (entries : List UsageEntry) :
    autoArmsIn now false deadline pinged prior entries =
      false := by
  induction entries generalizing deadline pinged prior with
  | nil => rfl
  | cons entry rest ih =>
      simp [autoArmsIn, autoArms, ih]

namespace Poll

/- The window is as it was, or has been disarmed. -/
structure KeepsArm (p q : Poll) : Prop where
  autoArm : q.out.autoArm = p.out.autoArm
  window :
    (q.state.deadline = p.state.deadline ∧
        q.out.armWrite = p.out.armWrite) ∨
      (q.state.deadline = 0 ∧ q.out.armWrite = some 0)

theorem KeepsArm.refl
    (p : Poll) : KeepsArm p p :=
  ⟨rfl, Or.inl ⟨rfl, rfl⟩⟩

theorem KeepsArm.trans
    {p q r : Poll}
    (hFirst : KeepsArm p q)
    (hSecond : KeepsArm q r) :
    KeepsArm p r := by
  refine ⟨hSecond.autoArm.trans hFirst.autoArm, ?_⟩
  rcases hSecond.window with ⟨hDeadline, hWrite⟩ | hDisarmed
  · rcases hFirst.window with hSame | hDisarmed
    · exact Or.inl
        ⟨hDeadline.trans hSame.1, hWrite.trans hSame.2⟩
    · exact Or.inr
        ⟨hDeadline.trans hDisarmed.1,
          hWrite.trans hDisarmed.2⟩
  · exact Or.inr hDisarmed

/- A miss that arms nothing leaves the window and the wake. -/
theorem scoreMiss_of_not_armed
    {p : Poll}
    {entry : UsageEntry}
    {now : Nat}
    {autoArm : Bool}
    (hNot :
      (rewrote p.state.ctx entry &&
        autoArms p.state.deadline now autoArm entry) =
          false) :
    KeepsArm p (p.scoreMiss entry now autoArm) ∧
      (p.scoreMiss entry now autoArm).state.deadline =
        p.state.deadline ∧
      (p.scoreMiss entry now autoArm).state.pingedAt =
        p.state.pingedAt ∧
      (p.scoreMiss entry now autoArm).state.ctx =
        p.state.ctx := by
  unfold scoreMiss
  split
  · rename_i hRewrote
    have hArms :
        autoArms p.state.deadline now autoArm entry =
          false := by
      simpa [hRewrote] using hNot
    dsimp only
    rw [hArms]
    exact ⟨⟨rfl, Or.inl ⟨rfl, rfl⟩⟩, rfl, rfl, rfl⟩
  · exact ⟨KeepsArm.refl p, rfl, rfl, rfl⟩

/- The verdict clears an answered wake; a cold one disarms. -/
theorem scoreVerdict_window
    (p : Poll)
    (entry : UsageEntry) :
    KeepsArm p (p.scoreVerdict entry) ∧
      (p.scoreVerdict entry).state.deadline =
        (if coldVerdict p.state.pingedAt p.state.ctx entry
          then 0 else p.state.deadline) ∧
      (p.scoreVerdict entry).state.pingedAt =
        (if answered p.state.pingedAt entry.atEpoch then none
          else p.state.pingedAt) := by
  unfold scoreVerdict coldVerdict
  cases hPinged : p.state.pingedAt with
  | none =>
      simp only [answered]
      exact ⟨KeepsArm.refl p, rfl, hPinged⟩
  | some pinged =>
      dsimp only
      by_cases hAnswers : entry.atEpoch ≥ pinged
      · have hAnswered :
            answered (some pinged) entry.atEpoch = true := by
          simpa [answered] using hAnswers
        rw [if_pos hAnswers, hAnswered]
        cases hWarm :
            (decide (p.state.ctx > 0) &&
              decide (entry.cacheRead ≥ p.state.ctx / 2)) with
        | true =>
            simp only [Bool.not_true, Bool.and_false,
              Bool.false_eq_true, if_true, if_false]
            exact ⟨⟨rfl, Or.inl ⟨rfl, rfl⟩⟩, rfl, rfl⟩
        | false =>
            simp only [Bool.not_false, Bool.and_true,
              Bool.false_eq_true, if_true, if_false]
            exact ⟨⟨rfl, Or.inr ⟨rfl, rfl⟩⟩, rfl, rfl⟩
      · have hAnswered :
            answered (some pinged) entry.atEpoch =
              false := by
          simpa [answered] using hAnswers
        rw [if_neg hAnswers, hAnswered]
        exact ⟨KeepsArm.refl p, rfl, hPinged⟩

/- One entry that arms nothing. -/
theorem scoreEntry_window
    {now : Nat}
    {autoArm : Bool}
    {p : Poll}
    {entry : UsageEntry}
    (hNot :
      (rewrote p.state.ctx entry &&
        autoArms p.state.deadline now autoArm entry) =
          false) :
    KeepsArm p (scoreEntry now autoArm p entry) ∧
      (scoreEntry now autoArm p entry).state.deadline =
        (if coldVerdict p.state.pingedAt p.state.ctx entry
          then 0 else p.state.deadline) ∧
      (scoreEntry now autoArm p entry).state.pingedAt =
        (if answered p.state.pingedAt entry.atEpoch then none
          else p.state.pingedAt) := by
  -- Naming the entry's model touches nothing the rest reads.
  have hNamed :
      ∀ named : Poll,
        named.state.ctx = p.state.ctx →
        named.state.deadline = p.state.deadline →
        named.state.pingedAt = p.state.pingedAt →
        named.out = p.out →
          KeepsArm p
              ((named.scoreMiss entry now
                autoArm).scoreVerdict entry) ∧
            ((named.scoreMiss entry now
                autoArm).scoreVerdict entry).state.deadline =
              (if coldVerdict p.state.pingedAt p.state.ctx
                entry then 0 else p.state.deadline) ∧
            ((named.scoreMiss entry now
                autoArm).scoreVerdict entry).state.pingedAt =
              (if answered p.state.pingedAt entry.atEpoch
                then none else p.state.pingedAt) := by
    intro named hCtx hDeadline hPinged hOut
    rw [← hCtx, ← hDeadline] at hNot
    have hMiss := scoreMiss_of_not_armed hNot
    have hVerdict :=
      scoreVerdict_window
        (named.scoreMiss entry now autoArm) entry
    have hKept := hMiss.1.trans hVerdict.1
    rw [hMiss.2.1, hMiss.2.2.1, hMiss.2.2.2] at hVerdict
    rw [hCtx, hDeadline, hPinged] at hVerdict
    refine ⟨⟨?_, ?_⟩, hVerdict.2.1, hVerdict.2.2⟩
    · rw [hKept.autoArm, hOut]
    · have hWindow := hKept.window
      rw [hDeadline, hOut] at hWindow
      exact hWindow
  unfold scoreEntry
  split
  · have hScored :=
      hNamed { p with state.model := entry.model } rfl rfl
        rfl rfl
    exact ⟨⟨hScored.1.autoArm, hScored.1.window⟩,
      hScored.2.1, hScored.2.2⟩
  · have hScored := hNamed p rfl rfl rfl rfl
    exact ⟨⟨hScored.1.autoArm, hScored.1.window⟩,
      hScored.2.1, hScored.2.2⟩

/- All the entries, when none of them arms a window. -/
theorem foldl_scoreEntry_keepsArm
    {now : Nat}
    {autoArm : Bool}
    {entries : List UsageEntry}
    {p : Poll}
    (hNot :
      autoArmsIn now autoArm p.state.deadline
        p.state.pingedAt p.state.ctx entries = false) :
    KeepsArm p
      (entries.foldl (scoreEntry now autoArm) p) := by
  induction entries generalizing p with
  | nil => exact KeepsArm.refl p
  | cons entry rest ih =>
      rw [autoArmsIn, Bool.or_eq_false_iff] at hNot
      rcases scoreEntry_window hNot.1 with
        ⟨hKeeps, hDeadline, hPinged⟩
      have hRest := hNot.2
      rw [← hDeadline, ← hPinged] at hRest
      exact hKeeps.trans (ih hRest)

/- The last request seen is the last of the entries scored. -/
theorem foldl_scoreEntry_lastSeenAt
    (now : Nat)
    (autoArm : Bool)
    (entries : List UsageEntry)
    (p : Poll) :
    (entries.foldl (scoreEntry now autoArm)
        p).state.lastSeenAt =
      (entries.getLast?.map UsageEntry.atEpoch).getD
        p.state.lastSeenAt := by
  induction entries generalizing p with
  | nil => rfl
  | cons entry rest ih =>
      rw [List.foldl_cons, ih, List.getLast?_cons]
      cases hLast : rest.getLast? with
      | none => rfl
      | some last => rfl

theorem scoreEntries_lastSeenAt
    (p : Poll)
    (reading : Reading)
    (now : Nat)
    (autoArm : Bool) :
    (p.scoreEntries reading now autoArm).state.lastSeenAt =
      ((newEntries p.state reading).getLast?.map
        UsageEntry.atEpoch).getD p.state.lastSeenAt := by
  rw [← foldl_scoreEntry_lastSeenAt now autoArm]
  unfold scoreEntries
  dsimp only
  split <;> rfl

theorem scoreEntries_keepsArm
    (p : Poll)
    (reading : Reading)
    (now : Nat)
    (autoArm : Bool)
    (hNot :
      autoArmsIn now autoArm p.state.deadline
        p.state.pingedAt p.state.ctx
        (newEntries p.state reading) = false) :
    KeepsArm p (p.scoreEntries reading now autoArm) := by
  have hFold := foldl_scoreEntry_keepsArm hNot
  unfold scoreEntries
  dsimp only
  split
  · exact ⟨hFold.autoArm, hFold.window⟩
  · exact hFold

theorem Finished.keepsArm
    {p q : Poll}
    {now : Nat}
    (hEnd : Finished p now q) :
    KeepsArm p q := by
  cases hEnd with
  | quiet _ _ => exact KeepsArm.refl p
  | disarmed _ _ _ => exact ⟨rfl, Or.inr ⟨rfl, rfl⟩⟩
  | woke _ _ => exact ⟨rfl, Or.inl ⟨rfl, rfl⟩⟩

end Poll

namespace State

/- A step that arms nothing leaves the file's window. -/
theorem stepWith_keepsArm
    (s : State)
    (reading : Reading)
    (arm : Option ArmFile)
    (now : Nat)
    (autoArm : Bool)
    (hNot :
      s.baselined = true →
        autoArmsIn now autoArm (armDeadline arm)
          (Poll.readArm s arm now).state.pingedAt s.ctx
          (Poll.newEntries s reading) = false) :
    Poll.KeepsArm (Poll.readArm s arm now)
      (s.stepWith reading arm now autoArm) := by
  cases hBaselined : s.baselined with
  | false =>
      rw [stepWith_of_not_baselined hBaselined]
      rcases Poll.baseline_state (Poll.readArm s arm now)
        reading now with ⟨pinged, hState, _⟩
      have hOut :=
        Poll.baseline_out (Poll.readArm s arm now) reading
          now
      refine ⟨hOut.2.2, Or.inl ⟨?_, hOut.2.1⟩⟩
      rw [hState]
  | true =>
      rw [stepWith_of_baselined hBaselined]
      have hNew :
          Poll.newEntries (Poll.readArm s arm now).state
              reading =
            Poll.newEntries s reading := by
        unfold Poll.newEntries
        rw [Poll.readArm_lastSeenAt]
      have hScored :=
        Poll.scoreEntries_keepsArm (Poll.readArm s arm now)
          reading now autoArm
          (by
            rw [hNew, Poll.readArm_deadline,
              Poll.readArm_ctx]
            exact hNot hBaselined)
      exact hScored.trans (Poll.finish_cases _ now).keepsArm

/- The last request a step has seen. -/
theorem stepWith_lastSeenAt
    {s : State}
    (hBaselined : s.baselined = true)
    (reading : Reading)
    (arm : Option ArmFile)
    (now : Nat)
    (autoArm : Bool) :
    (s.stepWith reading arm now autoArm).state.lastSeenAt =
      ((Poll.newEntries s reading).getLast?.map
        UsageEntry.atEpoch).getD s.lastSeenAt := by
  rw [stepWith_of_baselined hBaselined,
    (Poll.finish_cases _ now).lastSeenAt,
    Poll.scoreEntries_lastSeenAt, Poll.readArm_lastSeenAt]
  unfold Poll.newEntries
  rw [Poll.readArm_lastSeenAt]

end State

end Keepwarm
