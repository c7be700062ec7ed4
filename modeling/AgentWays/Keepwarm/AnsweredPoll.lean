import AgentWays.Keepwarm.PolicySpec

/-
  A poll of a stretch left alone: it reads nothing new, or
  the one warm request that a submitted turn landed, and the
  policy runs on with no wake pending.

  Key definitions include:
    * `Keepwarm.News`
    * `Keepwarm.operatorWindow`
    * `Keepwarm.Calm`

  Main declarations:
    * `Keepwarm.State.stepWith_news`
    * `Keepwarm.synced_settleArm`
    * `Keepwarm.policyPoll_news`
-/

------------------------------------------------------------
-- Nothing New, Or One Warm Request
------------------------------------------------------------

namespace Keepwarm

/- A request of the same context, read warm. -/
structure WarmRequest
    (ctx : Nat)
    (entry : UsageEntry) : Prop where
  context : entry.context = ctx
  warm : ctx / 2 ≤ entry.cacheRead

/- What a poll newly reads, for the wake it may hold. -/
inductive News
    (s : State)
    (reading : Reading) : Prop
| silent
    (hNew : Poll.newEntries s reading = [])
    (hUnpinged : s.pingedAt = none)
| landed
    (entry : UsageEntry)
    (hNew : Poll.newEntries s reading = [entry])
    (hSeen : 0 < s.ctx)
    (hWarm : WarmRequest s.ctx entry)
    (hAnswers :
      ∀ t, s.pingedAt = some t → t ≤ entry.atEpoch)

/- The warm verdict of one of the entries, or none. -/
def WarmVerdict
    (s : State)
    (entries : List UsageEntry)
    (after : Option PingRecord) : Prop :=
  (s.pingedAt = none ∧ after = s.lastPing) ∨
    ∃ r e,
      after = some r ∧ r.warm = true ∧ e ∈ entries ∧
        r.at' = e.atEpoch

namespace Poll

theorem rewrote_of_warm
    {ctx : Nat}
    {entry : UsageEntry}
    (hWarm : WarmRequest ctx entry) :
    rewrote ctx entry = false := by
  unfold rewrote
  have hRead := hWarm.warm
  simp only [Bool.and_eq_false_iff, decide_eq_false_iff_not]
  right
  omega

/- The verdict of a warm request clears the wake. -/
theorem scoreVerdict_of_warm
    {p : Poll}
    {entry : UsageEntry}
    (hSeen : 0 < p.state.ctx)
    (hWarm : WarmRequest p.state.ctx entry)
    (hAnswers :
      ∀ t, p.state.pingedAt = some t → t ≤ entry.atEpoch) :
    (p.scoreVerdict entry).state.pingedAt = none ∧
      (p.scoreVerdict entry).state.deadline =
        p.state.deadline ∧
      WarmVerdict p.state [entry]
        (p.scoreVerdict entry).state.lastPing := by
  unfold scoreVerdict
  cases hPinged : p.state.pingedAt with
  | none => exact ⟨hPinged, rfl, Or.inl ⟨hPinged, rfl⟩⟩
  | some t =>
      have hAnswer := hAnswers t hPinged
      have hRead :
          (decide (p.state.ctx > 0) &&
            decide (entry.cacheRead ≥ p.state.ctx / 2)) =
              true := by
        simp only [Bool.and_eq_true, decide_eq_true_eq]
        exact ⟨hSeen, hWarm.warm⟩
      dsimp only
      rw [if_pos hAnswer, if_pos hRead]
      exact
        ⟨rfl, rfl,
          Or.inr ⟨_, entry, rfl, hRead, by simp, rfl⟩⟩

theorem scoreEntry_of_warm
    {p : Poll}
    {entry : UsageEntry}
    (hSeen : 0 < p.state.ctx)
    (hWarm : WarmRequest p.state.ctx entry)
    (hAnswers :
      ∀ t, p.state.pingedAt = some t → t ≤ entry.atEpoch)
    (now : Nat)
    (autoArm : Bool) :
    (scoreEntry now autoArm p entry).state.pingedAt = none ∧
      (scoreEntry now autoArm p entry).state.deadline =
        p.state.deadline ∧
      (scoreEntry now autoArm p entry).state.ctx =
        p.state.ctx ∧
      WarmVerdict p.state [entry]
        (scoreEntry now autoArm p entry).state.lastPing := by
  have hNamed :
      ∀ named : Poll,
        named.state.ctx = p.state.ctx →
        named.state.pingedAt = p.state.pingedAt →
        named.state.lastPing = p.state.lastPing →
        named.state.deadline = p.state.deadline →
          (named.scoreMiss entry now autoArm) = named ∧
            (named.scoreVerdict entry).state.pingedAt =
              none ∧
            (named.scoreVerdict entry).state.deadline =
              p.state.deadline ∧
            WarmVerdict p.state [entry]
              (named.scoreVerdict entry).state.lastPing := by
    intro named hCtx hPinged hLastPing hDeadline
    have hMiss :
        named.scoreMiss entry now autoArm = named := by
      unfold scoreMiss
      rw [hCtx, rewrote_of_warm hWarm]
      rfl
    have hSeen' : 0 < named.state.ctx := by
      rw [hCtx]
      exact hSeen
    have hWarm' : WarmRequest named.state.ctx entry := by
      rw [hCtx]
      exact hWarm
    have hAnswers' :
        ∀ t, named.state.pingedAt = some t →
          t ≤ entry.atEpoch := by
      rw [hPinged]
      exact hAnswers
    have hVerdict :=
      scoreVerdict_of_warm hSeen' hWarm' hAnswers'
    refine
      ⟨hMiss, hVerdict.1, hVerdict.2.1.trans hDeadline, ?_⟩
    have hRecord := hVerdict.2.2
    unfold WarmVerdict at hRecord ⊢
    rw [hPinged, hLastPing] at hRecord
    exact hRecord
  unfold scoreEntry
  split
  · rcases hNamed { p with state.model := entry.model } rfl
      rfl rfl rfl with
      ⟨hMiss, hPinged, hDeadline, hVerdict⟩
    dsimp only
    rw [hMiss]
    exact ⟨hPinged, hDeadline, hWarm.context, hVerdict⟩
  · rcases hNamed p rfl rfl rfl rfl with
      ⟨hMiss, hPinged, hDeadline, hVerdict⟩
    dsimp only
    rw [hMiss]
    exact ⟨hPinged, hDeadline, hWarm.context, hVerdict⟩

/- The entries' scoring, then the reading's own count. -/
theorem scoreEntries_news
    {p : Poll}
    {reading : Reading}
    (hNews : News p.state reading)
    (now : Nat)
    (autoArm : Bool) :
    (p.scoreEntries reading now autoArm).state.pingedAt =
        none ∧
      (p.scoreEntries reading now autoArm).state.deadline =
        p.state.deadline ∧
      (p.scoreEntries reading now autoArm).state.ctx =
        readCtx p.state reading ∧
      WarmVerdict p.state (newEntries p.state reading)
        (p.scoreEntries reading now
          autoArm).state.lastPing := by
  have hCount :
      ∀ scored : Poll,
        scored.state.ctx = p.state.ctx →
          (if reading.tokensUsed > 0 then
            { scored with state.ctx := reading.tokensUsed }
          else scored).state.ctx =
            readCtx p.state reading := by
    intro scored hCtx
    unfold readCtx
    split
    · rfl
    · exact hCtx
  unfold scoreEntries
  cases hNews with
  | silent hNew hUnpinged =>
      simp only [hNew, List.foldl_nil]
      refine ⟨?_, ?_, hCount p rfl, ?_⟩
      · split <;> exact hUnpinged
      · split <;> rfl
      · left
        refine ⟨hUnpinged, ?_⟩
        split <;> rfl
  | landed entry hNew hSeen hWarm hAnswers =>
      rcases scoreEntry_of_warm hSeen hWarm hAnswers now
        autoArm with
        ⟨hPinged, hDeadline, hCtx, hVerdict⟩
      simp only [hNew, List.foldl_cons, List.foldl_nil]
      refine ⟨?_, ?_, hCount _ hCtx, ?_⟩
      · split <;> exact hPinged
      · split <;> exact hDeadline
      · split <;> exact hVerdict

end Poll

end Keepwarm

------------------------------------------------------------
-- The Poll Of A Stretch Left Alone
------------------------------------------------------------

namespace Keepwarm

variable {s : State} {reading : Reading}
variable {arm : Option ArmFile} {now : Nat}

theorem Poll.Finished.ctx
    {p q : Poll}
    (hEnd : Poll.Finished p now q) :
    q.state.ctx = p.state.ctx := by
  cases hEnd <;> rfl

/- With no window open a poll that holds no wake gets none. -/
theorem Poll.Finished.unpinged
    {p q : Poll}
    (hEnd : Poll.Finished p now q)
    (hUnpinged : p.state.pingedAt = none)
    (hClosed : p.state.deadline ≤ now) :
    q.state.pingedAt = none := by
  cases hEnd with
  | quiet _ _ => exact hUnpinged
  | disarmed _ _ _ => rfl
  | woke _ hWakes =>
      have hOpen := hWakes.isOpen
      omega

theorem State.stepWith_news
    (hBaselined : s.baselined = true)
    (hSame : armDeadline arm = s.deadline)
    (hClosed : s.deadline ≤ now)
    (hNews : News s reading)
    (autoArm : Bool) :
    (s.stepWith reading arm now autoArm).state.pingedAt =
        none ∧
      (s.stepWith reading arm now autoArm).state.ctx =
        readCtx s reading ∧
      WarmVerdict s (Poll.newEntries s reading)
        (s.stepWith reading arm now
          autoArm).state.lastPing := by
  have hRead : Poll.readArm s arm now = ⟨s, {}⟩ := by
    unfold Poll.readArm
    rw [hSame]
    simp
  rw [stepWith_of_baselined hBaselined, hRead]
  have hScored :=
    Poll.scoreEntries_news (p := ⟨s, {}⟩) hNews now autoArm
  generalize
    Poll.scoreEntries ⟨s, {}⟩ reading now autoArm = p
    at hScored ⊢
  rcases hScored with ⟨hPinged, hDeadline, hCtx, hVerdict⟩
  have hEnd := Poll.finish_cases p now
  refine ⟨?_, hEnd.ctx.trans hCtx, ?_⟩
  · apply hEnd.unpinged hPinged
    rw [hDeadline]
    exact hClosed
  · rw [hEnd.lastPing]
    exact hVerdict

/- The operator's window; the sensor's own is none. -/
def operatorWindow : Option ArmFile → Nat
| none => 0
| some a => if a.auto then 0 else a.deadline

theorem operatorArm_window
    (s : State)
    (arm : Option ArmFile) :
    armDeadline (operatorArm s arm).2 =
      operatorWindow arm := by
  unfold operatorArm operatorWindow
  cases arm with
  | none => rfl
  | some a =>
      dsimp only
      split
      · split <;> rfl
      · rfl

/- The state's window is the operator's. -/
def Synced
    (s : State)
    (arm : Option ArmFile) : Prop :=
  s.deadline = operatorWindow arm

theorem Synced.operatorArm
    (hSynced : Synced s arm) :
    (operatorArm s arm).1.deadline = operatorWindow arm := by
  unfold Synced at hSynced
  unfold operatorWindow at hSynced ⊢
  unfold Keepwarm.operatorArm
  cases arm with
  | none => exact hSynced
  | some a =>
      dsimp only at hSynced ⊢
      split at hSynced
      · rename_i hAuto
        rw [if_pos hAuto]
        split <;> simp [hSynced]
      · rename_i hAuto
        rw [if_neg hAuto]
        simpa [hAuto] using hSynced

/- A policy's own step leaves the file and state agreeing. -/
theorem synced_settleArm
    {after : State}
    {out : Outcome}
    (hClosed : operatorWindow arm ≤ now)
    (hDeadline :
      after.deadline =
        (policyPoll s reading arm now).state.deadline)
    (hWrite :
      out.armWrite =
        (policyPoll s reading arm now).out.armWrite) :
    Synced after (settleArm arm arm out now) ∧
      operatorWindow (settleArm arm arm out now) ≤ now := by
  rcases policyPoll_window s reading arm now with
    ⟨hSame, hNone⟩ | ⟨hZero, hSome⟩
  · rw [hNone] at hWrite
    rw [operatorArm_window] at hSame
    simp only [settleArm, hWrite]
    exact ⟨hDeadline.trans hSame, hClosed⟩
  · rw [hSome] at hWrite
    have hFile :
        settleArm arm arm out now =
          some
            { deadline := 0
              armedAt := now
              windowSecs := 0
              auto := false } := by
      simp [settleArm, hWrite]
    rw [hFile]
    exact ⟨hDeadline.trans hZero, Nat.zero_le now⟩

/- What the poll leaves: the policy runs, no wake pending. -/
structure Calm
    (s : State)
    (reading : Reading)
    (lastAt : Nat)
    (q : Poll) : Prop where
  unpinged : q.state.pingedAt = none
  ctx : q.state.ctx = readCtx s reading
  policy :
    ∃ pending spent,
      q.state.policy =
        { s.policy with
          pending := pending
          spentUsd := spent }
  verdict :
    ∀ r, q.state.lastPing = some r → r.at' ≤ lastAt

theorem judgeVerdict_warm
    {before after : State}
    {entries : List UsageEntry}
    (hBaselined : before.baselined = true)
    (hVerdict : WarmVerdict before entries after.lastPing)
    (hLater :
      ∀ r, before.lastPing = some r →
        ∀ e ∈ entries, r.at' < e.atEpoch) :
    ∃ pending spent,
      judgeVerdict before after =
        { after with
          policy :=
            { after.policy with
              pending := pending
              spentUsd := spent } } := by
  unfold judgeVerdict
  simp only [hBaselined, Bool.not_true, Bool.false_eq_true,
    if_false]
  split
  · rename_i hOver
    rcases hVerdict with
      ⟨hUnpinged, -⟩ | ⟨r, e, hRecord, hWarm, hMem, hAt⟩
    · have hPinged := hOver.1
      rw [hUnpinged] at hPinged
      cases hPinged
    · have hLanded : some r ≠ before.lastPing := by
        intro hSame
        have hEarlier := hLater r hSame.symm e hMem
        omega
      simp only [hLanded, hRecord, hWarm, ne_eq,
        not_false_eq_true, decide_true, Option.any_some,
        Bool.and_self, if_true]
      exact ⟨false, _, rfl⟩
  · exact ⟨after.policy.pending, after.policy.spentUsd, rfl⟩

/- The verdict on the record is of a request by `lastAt`. -/
theorem WarmVerdict.at_le
    {entries : List UsageEntry}
    {after : Option PingRecord}
    {lastAt : Nat}
    (hVerdict : WarmVerdict s entries after)
    (hOld : ∀ r, s.lastPing = some r → r.at' ≤ lastAt)
    (hNew : ∀ e ∈ entries, e.atEpoch ≤ lastAt) :
    ∀ r, after = some r → r.at' ≤ lastAt := by
  intro r hSome
  rcases hVerdict with
    ⟨-, hSame⟩ | ⟨r', e, hRecord, -, hMem, hAt⟩
  · exact hOld r (hSame ▸ hSome)
  · rw [hRecord] at hSome
    cases hSome
    rw [hAt]
    exact hNew e hMem

theorem policyPoll_news
    {lastAt : Nat}
    (hBaselined : s.baselined = true)
    (hSynced : Synced s arm)
    (hClosed : operatorWindow arm ≤ now)
    (hNews : News s reading)
    (hOld : ∀ r, s.lastPing = some r → r.at' ≤ lastAt)
    (hLater :
      ∀ r, s.lastPing = some r →
        ∀ e ∈ Poll.newEntries s reading, r.at' < e.atEpoch)
    (hNew :
      ∀ e ∈ Poll.newEntries s reading, e.atEpoch ≤ lastAt) :
    Calm s reading lastAt
      (policyPoll s reading arm now) := by
  rcases operatorArm_state s arm with ⟨deadline, hRead⟩
  have hReadNews : News (operatorArm s arm).1 reading := by
    rw [hRead]
    cases hNews with
    | silent hNil hUnpinged => exact .silent hNil hUnpinged
    | landed entry hOne hSeen hWarm hAnswers =>
        exact .landed entry hOne hSeen hWarm hAnswers
  have hOver : (operatorArm s arm).1.deadline ≤ now := by
    rw [hSynced.operatorArm]
    exact hClosed
  have hSame :
      armDeadline (operatorArm s arm).2 =
        (operatorArm s arm).1.deadline := by
    rw [operatorArm_window, hSynced.operatorArm]
  have hStep :=
    State.stepWith_news (by rw [hRead]; exact hBaselined)
      hSame hOver hReadNews false
  have hPolicy :=
    State.stepWith_policy (operatorArm s arm).1 reading
      (operatorArm s arm).2 now false
  unfold policyPoll
  dsimp only
  generalize
    (operatorArm s arm).1.stepWith reading
      (operatorArm s arm).2 now false = q
    at hStep hPolicy ⊢
  rw [hRead] at hStep hPolicy ⊢
  rcases hStep with ⟨hPinged, hCtx, hVerdict⟩
  rcases
    @judgeVerdict_warm { s with deadline := deadline } _ _
      hBaselined hVerdict hLater with
    ⟨pending, spent, hJudged⟩
  constructor
  · rw [hJudged]
    exact hPinged
  · rw [hJudged]
    exact hCtx
  · refine ⟨pending, spent, ?_⟩
    rw [hJudged, ← hPolicy]
  · rw [hJudged]
    exact hVerdict.at_le hOld hNew

end Keepwarm
