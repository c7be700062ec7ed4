import AgentWays.EventLog.MaintenanceSpec

/-
  No line is lost, over every interleaving.

  At each stage of a pass the lines of the live file, of the
  archives and of what the pass is carrying over are those
  that were found and appended; only a failed publish leaves
  lines in both places. What breaks this is a line written
  to a replaced file that no pass will read again.

  Key definitions include:
    * `EventLog.belowCeiling`
    * `EventLog.writesInTime`
    * `EventLog.NoLoss`

  Main declarations:
    * `EventLog.sound_of_next`
    * `EventLog.noLoss`
-/

------------------------------------------------------------
-- Runs
------------------------------------------------------------

namespace EventLog

/- Whether a move reads no log past its ceiling. -/
def belowCeiling
    (s : Calls) : Move → Bool
| .world .advances =>
    match s.shared.pass with
    | .opened _ (.compactLogTail _ _ ceiling) handle =>
        size (s.shared.content handle) ≤ ceiling
    | _ => true
| _ => true

/- The replaced file that a pass has still to read. -/
def Stage.awaits : Stage → Option Nat
| .carrying r _ => some r.handle
| _ => none

/-
  Whether a move writes to no replaced file after the pass
  that replaced it has read what that gained.
-/
def writesInTime
    (s : Calls) : Move → Bool
| .step i _ =>
    match s.calls[i]? with
    | some (.writing handle _) =>
        s.shared.live == some handle ||
          s.shared.pass.awaits == some handle
    | _ => true
| _ => true

/- Whether a move is a publish that fails. -/
def failsPublish : Move → Bool
| .world .publishFails => true
| _ => false

/-
  Every line found or appended is held, by the live file or
  by an archive, as often as it was written, and once more
  for each pass that archived it and failed to publish.
-/
structure NoLoss
    (found : Log)
    (moves : List Move)
    (s : Calls) : Prop where
  held :
    ∀ line, .written line ∈ s.calls →
      line ∈ s.shared.liveLines ∨ line ∈ s.shared.archived
  once :
    (s.shared.liveLines ++ s.shared.archived).Perm
      (found.liveLines ++ found.archived ++ appended s ++
        s.shared.unpublished)
  published :
    (∀ move ∈ moves, failsPublish move = false) →
      s.shared.unpublished = []

end EventLog

------------------------------------------------------------
-- Invariants
------------------------------------------------------------

namespace EventLog

/- What a stage relies on. -/
def StageOk
    (s : Log) : Prop :=
  match s.pass with
  | .opened _ _ handle => s.live = some handle
  | .splitting _ handle _ => s.live = some handle
  | .seeking _ handle _ => s.live = some handle
  | .copying r | .measuring r | .checking r | .archiving r =>
      s.live = some r.handle ∧ r.Fits (s.content r.handle)
  | .publishing r archived =>
      archived = true ∧ s.live = some r.handle ∧
        r.Fits (s.content r.handle)
  | .carrying r archived =>
      archived = true ∧ r.handle < s.inodes.length ∧
        r.pos ≤ (s.content r.handle).length ∧
        s.live.isSome ∧ s.live ≠ some r.handle
  | .gaining _ _ archived => archived = true ∧ s.live.isSome
  | .noting _ => False
  | _ => True

/- The lines that a pass has still to carry over. -/
def Log.coming
    (s : Log) : List Line :=
  match s.pass with
  | .carrying r _ => (s.content r.handle).drop r.pos
  | .gaining _ gained _ => gained
  | _ => []

/- The lines of the live file that are archived already. -/
def Log.spare
    (s : Log) : List Line :=
  match s.pass with
  | .publishing r _ => r.removed.of (s.content r.handle)
  | _ => []

/- What holds of the log and its appenders at any time. -/
structure Sound
    (found : Log)
    (s : Calls) : Prop where
  live :
    ∀ handle, s.shared.live = some handle →
      handle < s.shared.inodes.length
  stage : StageOk s.shared
  kept :
    (s.shared.liveLines ++ s.shared.archived ++
        s.shared.coming).Perm
      (found.liveLines ++ found.archived ++ appended s ++
        s.shared.unpublished ++ s.shared.spare)

end EventLog

------------------------------------------------------------
-- Appenders
------------------------------------------------------------

namespace EventLog

variable {found : Log} {s : Calls}
variable {i : Nat} {call : Appender}

/- A line is appended when its appender comes to its end. -/
theorem perm_appended_set
    (shared : Log)
    (call' : Appender)
    (hCall : s.calls[i]? = some call)
    (hNone : call.wrote = none) :
    (appended
        { shared := shared, calls := s.calls.set i call' }).Perm
      (appended s ++ call'.wrote.toList) :=
  Interleave.perm_filterMap_set Appender.wrote hCall hNone

/- An appender takes a step that writes nothing. -/
theorem appended_set_of_none
    (shared : Log)
    {call' : Appender}
    (hCall : s.calls[i]? = some call)
    (hNone : call.wrote = none)
    (hNone' : call'.wrote = none) :
    (appended
        { shared := shared, calls := s.calls.set i call' }).Perm
      (appended s) := by
  have hPerm :=
    perm_appended_set shared call' hCall hNone
  rw [hNone'] at hPerm
  simpa using hPerm

/- Without a live file no pass is past its start. -/
theorem quiet_of_live_none
    (hStage : StageOk s.shared)
    (hNone : s.shared.live = none) :
    s.shared.coming = [] ∧ s.shared.spare = [] ∧
      ∀ log : Log, log.pass = s.shared.pass →
        StageOk log ∧ log.coming = [] ∧ log.spare = [] := by
  cases hPass : s.shared.pass <;>
    simp_all [StageOk, Log.coming, Log.spare]

/- An appender opens the live file. -/
theorem Sound.opened
    {handle : Nat}
    {line : Line}
    (hSound : Sound found s)
    (hCall : s.calls[i]? = some (.opening line)) :
    Sound found
      { s with
        calls := s.calls.set i (.writing handle line) } := by
  refine ⟨hSound.live, hSound.stage, hSound.kept.trans ?_⟩
  have hAppended :
      (appended
          { shared := s.shared
            calls := s.calls.set i (.writing handle line) }).Perm
        (appended s) :=
    appended_set_of_none s.shared hCall rfl rfl
  exact
    ((hAppended.symm.append_left _).append_right _).append_right
      _

/- An appender makes the live file. -/
theorem Sound.created
    {handle : Nat}
    {line : Line}
    (hSound : Sound found s)
    (hCall : s.calls[i]? = some (.opening line))
    (hLive : s.shared.live = none) :
    Sound found
      { shared := s.shared.rename []
        calls := s.calls.set i (.writing handle line) } := by
  rcases quiet_of_live_none hSound.stage hLive with
    ⟨hComing, hSpare, hQuiet⟩
  rcases hQuiet (s.shared.rename []) rfl with
    ⟨hStage, hComing', hSpare'⟩
  refine ⟨?_, hStage, ?_⟩
  · intro other hHandle
    have hNew := (Option.some.inj hHandle).symm
    simp [Log.rename, hNew]
  · have hAppended :
        (appended
            { shared := s.shared.rename []
              calls :=
                s.calls.set i (.writing handle line) }).Perm
          (appended s) :=
      appended_set_of_none (s.shared.rename []) hCall rfl rfl
    have hEmpty : s.shared.liveLines = [] := by
      simp [Log.liveLines, hLive]
    have hKept := hSound.kept
    rw [hComing, hSpare, hEmpty] at hKept
    rw [hComing', hSpare', liveLines_rename, archived_rename]
    refine hKept.trans ?_
    exact
      ((hAppended.symm.append_left _).append_right
        _).append_right _

/- What a stage relies on outlives a line for the live file. -/
theorem stageOk_write_live
    {log : Log}
    {handle : Nat}
    (lines : List Line)
    (hStage : StageOk log)
    (hLive : log.live = some handle)
    (hBound : handle < log.inodes.length) :
    StageOk (log.write handle lines) ∧
      (log.write handle lines).coming = log.coming ∧
      (log.write handle lines).spare = log.spare := by
  have hSelf := content_write_self lines hBound
  have hFits :
      ∀ r : Rewrite, log.live = some r.handle →
        r.Fits (log.content r.handle) →
        r.Fits
            ((log.write handle lines).content r.handle) ∧
          r.removed.of
              ((log.write handle lines).content r.handle) =
            r.removed.of (log.content r.handle) := by
    intro r hAt hFits
    have hSame : r.handle = handle := by
      rw [hLive] at hAt
      exact (Option.some.inj hAt).symm
    rw [hSame] at hFits ⊢
    rw [hSelf]
    exact ⟨hFits.append lines, hFits.removed_append lines⟩
  have hPass : (log.write handle lines).pass = log.pass := rfl
  have hAt : (log.write handle lines).live = log.live := rfl
  unfold StageOk at hStage ⊢
  unfold Log.coming Log.spare
  rw [hPass, hAt]
  cases hCase : log.pass with
  | copying r | measuring r | checking r | archiving r =>
      rw [hCase] at hStage
      exact
        ⟨⟨hStage.1, (hFits r hStage.1 hStage.2).1⟩, rfl, rfl⟩
  | publishing r archived =>
      rw [hCase] at hStage
      rcases hFits r hStage.2.1 hStage.2.2 with
        ⟨hNew, hSame⟩
      exact ⟨⟨hStage.1, hStage.2.1, hNew⟩, rfl, hSame⟩
  | carrying r archived =>
      rw [hCase] at hStage
      rcases hStage with ⟨hOk, hOld, hPos, hSome, hOther⟩
      have hFrame :
          (log.write handle lines).content r.handle =
            log.content r.handle := by
        apply content_write_ne
        intro hSame
        rw [hLive, hSame] at hOther
        exact hOther rfl
      have hInodes :
          (log.write handle lines).inodes.length =
            log.inodes.length := by
        simp [Log.write]
      simp only [hFrame, hInodes]
      exact ⟨⟨hOk, hOld, hPos, hSome, hOther⟩, trivial, trivial⟩
  | _ =>
      rw [hCase] at hStage
      exact ⟨hStage, rfl, rfl⟩

/- The live file gains what is written to it. -/
theorem liveLines_write
    {log : Log}
    {handle : Nat}
    {lines : List Line}
    (hLive : log.live = some handle)
    (hBound : handle < log.inodes.length) :
    (log.write handle lines).liveLines =
      log.liveLines ++ lines := by
  have hLive' : (log.write handle lines).live = some handle :=
    hLive
  rw [liveLines_eq hLive', liveLines_eq hLive,
    content_write_self lines hBound]

/- A line is written to a file that a pass knows or will read. -/
theorem Sound.wrote
    {handle : Nat}
    {line : Line}
    (hSound : Sound found s)
    (hCall : s.calls[i]? = some (.writing handle line))
    (hStage : StageOk (s.shared.write handle [line]))
    (hLines :
      ((s.shared.write handle [line]).liveLines ++
          (s.shared.write handle [line]).coming).Perm
        (s.shared.liveLines ++ s.shared.coming ++ [line]))
    (hSpare :
      (s.shared.write handle [line]).spare = s.shared.spare) :
    Sound found
      { shared := s.shared.write handle [line]
        calls := s.calls.set i (.written line) } := by
  refine ⟨?_, hStage, ?_⟩
  · intro other hOther
    have hOld := hSound.live other hOther
    simpa [Log.write] using hOld
  · have hAppended :=
      perm_appended_set (s.shared.write handle [line])
        (.written line) hCall rfl
    have hKept := hSound.kept
    rw [hSpare]
    rw [List.perm_iff_count] at hAppended hLines hKept ⊢
    intro other
    have hNew := hAppended other
    have hBoth := hLines other
    have hOld := hKept other
    simp only [List.count_append, Appender.wrote,
      Option.toList_some, archived_write] at hNew hBoth hOld ⊢
    change
      _ = _ + List.count other s.shared.unpublished + _
    omega

/- An appender writes to the live file. -/
theorem Sound.wroteLive
    {handle : Nat}
    {line : Line}
    (hSound : Sound found s)
    (hCall : s.calls[i]? = some (.writing handle line))
    (hLive : s.shared.live = some handle) :
    Sound found
      { shared := s.shared.write handle [line]
        calls := s.calls.set i (.written line) } := by
  have hBound := hSound.live handle hLive
  rcases stageOk_write_live [line] hSound.stage hLive
    hBound with
    ⟨hStage, hComing, hSpare⟩
  apply hSound.wrote hCall hStage _ hSpare
  rw [hComing, liveLines_write hLive hBound, List.append_assoc,
    List.append_assoc]
  exact List.perm_append_comm.append_left _

/- An appender writes to a file that is still to be read. -/
theorem Sound.wroteReplaced
    {handle : Nat}
    {line : Line}
    (hSound : Sound found s)
    (hCall : s.calls[i]? = some (.writing handle line))
    (hAwaits : s.shared.pass.awaits = some handle) :
    Sound found
      { shared := s.shared.write handle [line]
        calls := s.calls.set i (.written line) } := by
  cases hPass : s.shared.pass with
  | carrying r archived =>
      have hSame : r.handle = handle := by
        rw [hPass] at hAwaits
        exact Option.some.inj hAwaits
      have hStage := hSound.stage
      unfold StageOk at hStage
      rw [hPass] at hStage
      rcases hStage with ⟨hOk, hOld, hPos, hSome, hOther⟩
      rw [hSame] at hOld hPos hOther
      have hSelf :=
        content_write_self [line] hOld
      have hPass' :
          (s.shared.write handle [line]).pass =
            .carrying r archived := hPass
      have hLiveLines :
          (s.shared.write handle [line]).liveLines =
            s.shared.liveLines := by
        rcases Option.isSome_iff_exists.mp hSome with
          ⟨live, hLive⟩
        have hLive' :
            (s.shared.write handle [line]).live = some live :=
          hLive
        rw [liveLines_eq hLive, liveLines_eq hLive']
        apply content_write_ne
        intro hEq
        rw [hLive, hEq] at hOther
        exact hOther rfl
      have hComing :
          (s.shared.write handle [line]).coming =
            s.shared.coming ++ [line] := by
        simp only [Log.coming, hPass, hPass', hSame, hSelf]
        exact List.drop_append_of_le_length hPos
      have hSpare :
          (s.shared.write handle [line]).spare =
            s.shared.spare := by
        simp only [Log.spare, hPass, hPass']
      have hStage' : StageOk (s.shared.write handle [line]) := by
        unfold StageOk
        simp only [hPass', hSame, hSelf]
        refine ⟨hOk, ?_, ?_, hSome, hOther⟩
        · simpa [Log.write] using hOld
        · rw [List.length_append]
          omega
      apply hSound.wrote hCall hStage' _ hSpare
      rw [hComing, hLiveLines, List.append_assoc]
  | _ =>
      rw [hPass] at hAwaits
      cases hAwaits

end EventLog

------------------------------------------------------------
-- Passes
------------------------------------------------------------

namespace EventLog

variable {found : Log} {s : Calls}

/- A pass comes to another stage, and no file has changed. -/
theorem Sound.to
    {log : Log}
    (hSound : Sound found s)
    (hComing : s.shared.coming = [])
    (hSpare : s.shared.spare = [])
    (hInodes : log.inodes = s.shared.inodes)
    (hLive : log.live = s.shared.live)
    (hArchived : log.archived = s.shared.archived)
    (hUnpublished : log.unpublished = s.shared.unpublished)
    (hStage : StageOk log)
    (hComing' : log.coming = [])
    (hSpare' : log.spare = []) :
    Sound found { s with shared := log } := by
  refine ⟨?_, hStage, ?_⟩
  · rw [hInodes, hLive]
    exact hSound.live
  · have hKept := hSound.kept
    have hLines : log.liveLines = s.shared.liveLines := by
      unfold Log.liveLines Log.content
      rw [hLive, hInodes]
    rw [hComing, hSpare] at hKept
    rw [hComing', hSpare', hLines, hArchived, hUnpublished]
    exact hKept

variable {eventOf : Line → Option String}
variable {dropped : Nat → Nat → Line}
variable {now handle : Nat} {r : Rewrite}

theorem Sound.start
    {job : Job}
    (hSound : Sound found s)
    (hPass : s.shared.pass = .starting now job) :
    Sound found
      { s with shared := start s.shared now job } := by
  have hComing : s.shared.coming = [] := by
    simp [Log.coming, hPass]
  have hSpare : s.shared.spare = [] := by
    simp [Log.spare, hPass]
  unfold EventLog.start
  cases hLive : s.shared.live with
  | none =>
      exact
        hSound.to hComing hSpare rfl rfl rfl rfl trivial rfl rfl
  | some handle =>
      simp only
      split
      · exact
          hSound.to hComing hSpare rfl rfl rfl rfl trivial rfl
            rfl
      · exact
          hSound.to hComing hSpare rfl rfl rfl rfl hLive rfl rfl

/- The rewrite of a compaction fits what was read. -/
theorem fits_compaction
    {keepBytes ceiling : Nat}
    {data : List Line}
    (hBelow : size data ≤ ceiling) :
    Rewrite.Fits
      { now := now
        handle := handle
        pos := data.length
        out := (compaction eventOf keepBytes data).kept
        removed :=
          .lines (compaction eventOf keepBytes data).removed
        marks := true
        overCeiling := ceiling < size data }
      data := by
  refine ⟨?_, Nat.le_refl _, ?_, ?_⟩
  · simpa using hBelow
  · intro count hHead
    cases hHead
  · rw [List.take_length]
    exact perm_compaction keepBytes data

theorem Sound.read
    {job : Job}
    (hSound : Sound found s)
    (hPass : s.shared.pass = .opened now job handle)
    (hBelow : belowCeiling s (.world .advances) = true) :
    Sound found
      { s with
        shared := read eventOf s.shared now job handle } := by
  have hComing : s.shared.coming = [] := by
    simp [Log.coming, hPass]
  have hSpare : s.shared.spare = [] := by
    simp [Log.spare, hPass]
  have hLive : s.shared.live = some handle := by
    have hStage := hSound.stage
    unfold StageOk at hStage
    rw [hPass] at hStage
    exact hStage
  have hIdle :
      Sound found { s with shared := s.shared.to .idle } :=
    hSound.to hComing hSpare rfl rfl rfl rfl trivial rfl rfl
  unfold EventLog.read
  cases job with
  | compactLogTail keepBytes minFreed ceiling =>
      simp only
      split
      · exact hIdle
      · split
        · exact hIdle
        · have hCeiling :
              size (s.shared.content handle) ≤ ceiling := by
            simpa [belowCeiling, hPass] using hBelow
          exact
            hSound.to hComing hSpare rfl rfl rfl rfl
              ⟨hLive, fits_compaction hCeiling⟩ rfl rfl
  | rotateLogByAge retentionDays =>
      exact
        hSound.to hComing hSpare rfl rfl rfl rfl hLive rfl rfl
  | trimToTurns keep =>
      simp only
      split
      · exact
          hSound.to hComing hSpare rfl rfl rfl rfl hLive rfl rfl
      · exact hIdle

theorem Sound.split
    {cutoff : Nat}
    (hSound : Sound found s)
    (hPass : s.shared.pass = .splitting now handle cutoff) :
    Sound found
      { s with
        shared := split eventOf s.shared now handle cutoff } := by
  have hComing : s.shared.coming = [] := by
    simp [Log.coming, hPass]
  have hSpare : s.shared.spare = [] := by
    simp [Log.spare, hPass]
  have hLive : s.shared.live = some handle := by
    have hStage := hSound.stage
    unfold StageOk at hStage
    rw [hPass] at hStage
    exact hStage
  unfold EventLog.split
  split
  · exact
      hSound.to hComing hSpare rfl rfl rfl rfl trivial rfl rfl
  · rename_i sorted hSorted
    rcases perm_splitExpired hSorted with ⟨hPos, hPerm⟩
    have hFits :
        Rewrite.Fits
          { now := now
            handle := handle
            pos := sorted.currentFrom
            out := sorted.kept
            removed := .lines sorted.expired
            marks := false
            overCeiling := false }
          (s.shared.content handle) := by
      refine ⟨rfl, hPos, ?_, hPerm⟩
      intro count hHead
      cases hHead
    exact
      hSound.to hComing hSpare rfl rfl rfl rfl ⟨hLive, hFits⟩
        rfl rfl

theorem Sound.seek
    {before : Nat}
    (hSound : Sound found s)
    (hPass : s.shared.pass = .seeking now handle before) :
    Sound found
      { s with shared := seek s.shared now handle before } := by
  have hComing : s.shared.coming = [] := by
    simp [Log.coming, hPass]
  have hSpare : s.shared.spare = [] := by
    simp [Log.spare, hPass]
  have hLive : s.shared.live = some handle := by
    have hStage := hSound.stage
    unfold StageOk at hStage
    rw [hPass] at hStage
    exact hStage
  unfold EventLog.seek
  split
  · exact
      hSound.to hComing hSpare rfl rfl rfl rfl trivial rfl rfl
  · rename_i cut hCut
    have hFits :
        Rewrite.Fits
          { now := now
            handle := handle
            pos := cut
            out := []
            removed := .head cut
            marks := true
            overCeiling := false }
          (s.shared.content handle) := by
      refine ⟨rfl, turnCut_le hCut, ?_, ?_⟩
      · intro count hHead
        cases hHead
        exact Nat.le_refl _
      · exact List.Perm.refl _
    exact
      hSound.to hComing hSpare rfl rfl rfl rfl ⟨hLive, hFits⟩
        rfl rfl

/- What a rewrite relies on until it archives. -/
theorem Sound.rewriting
    (hSound : Sound found s)
    (hPass :
      s.shared.pass = .copying r ∨
        s.shared.pass = .measuring r ∨
        s.shared.pass = .checking r ∨
        s.shared.pass = .archiving r) :
    s.shared.live = some r.handle ∧
      r.Fits (s.shared.content r.handle) ∧
      s.shared.coming = [] ∧ s.shared.spare = [] := by
  have hStage := hSound.stage
  unfold StageOk at hStage
  unfold Log.coming Log.spare
  rcases hPass with hPass | hPass | hPass | hPass <;>
    rw [hPass] at hStage ⊢ <;>
    exact ⟨hStage.1, hStage.2, rfl, rfl⟩

/- A rewrite is archived, its lines still in the live file. -/
theorem Sound.archived
    (hSound : Sound found s)
    (hPass : s.shared.pass = .archiving r) :
    Sound found
      { s with
        shared :=
          (archiveRemoved s.shared r).to
            (.publishing r true) } := by
  rcases hSound.rewriting (Or.inr (Or.inr (Or.inr hPass))) with
    ⟨hLive, hFits, hComing, hSpare⟩
  rcases frame_archiveRemoved (s := s.shared) r with
    ⟨hInodes, hLive', hUnpublished⟩
  have hContent :
      (archiveRemoved s.shared r).content r.handle =
        s.shared.content r.handle := by
    unfold Log.content
    rw [hInodes]
  refine ⟨?_, ?_, ?_⟩
  · change
      ∀ handle,
        (archiveRemoved s.shared r).live = some handle →
          handle < (archiveRemoved s.shared r).inodes.length
    rw [hInodes, hLive']
    exact hSound.live
  · refine ⟨rfl, hLive'.trans hLive, ?_⟩
    rw [content_to, hContent]
    exact hFits
  · have hKept := hSound.kept
    rw [hComing, hSpare] at hKept
    have hSpare' :
        ((archiveRemoved s.shared r).to
            (.publishing r true)).spare =
          r.removed.of (s.shared.content r.handle) := by
      rw [← hContent]
      rfl
    have hComing' :
        ((archiveRemoved s.shared r).to
            (.publishing r true)).coming = [] := rfl
    have hLines :
        (archiveRemoved s.shared r).liveLines =
          s.shared.liveLines := by
      unfold Log.liveLines Log.content
      rw [hLive', hInodes]
    rw [hComing', hSpare', liveLines_to, hLines, archived_to,
      archived_archiveRemoved]
    rw [List.perm_iff_count] at hKept ⊢
    intro line
    have hCount := hKept line
    simp only [List.count_append, List.count_nil]
      at hCount ⊢
    change
      _ = _ + List.count line
        (archiveRemoved s.shared r).unpublished + _
    rw [hUnpublished]
    change
      _ = _ + List.count line (appended s) + _ + _
    omega

/- What a publish relies on. -/
theorem Sound.publishing
    {archived : Bool}
    (hSound : Sound found s)
    (hPass : s.shared.pass = .publishing r archived) :
    archived = true ∧ s.shared.live = some r.handle ∧
      r.Fits (s.shared.content r.handle) ∧
      s.shared.coming = [] ∧
      s.shared.spare =
        r.removed.of (s.shared.content r.handle) := by
  have hStage := hSound.stage
  unfold StageOk at hStage
  unfold Log.coming Log.spare
  rw [hPass] at hStage ⊢
  exact ⟨hStage.1, hStage.2.1, hStage.2.2, rfl, rfl⟩

/- A rewrite is published. -/
theorem Sound.published
    {archived : Bool}
    (hSound : Sound found s)
    (hPass : s.shared.pass = .publishing r archived) :
    Sound found
      { s with
        shared :=
          (s.shared.rename r.out).to
            (.carrying r archived) } := by
  rcases hSound.publishing hPass with
    ⟨hArchived, hLive, hFits, hComing, hSpare⟩
  have hBound := hSound.live r.handle hLive
  have hOld :=
    content_rename_old (s := s.shared) r.out hBound
  refine ⟨?_, ?_, ?_⟩
  · intro handle hNew
    have hHandle : s.shared.inodes.length = handle :=
      Option.some.inj hNew
    rw [← hHandle]
    simp [Log.rename, Log.to]
  · refine ⟨hArchived, ?_, ?_, rfl, ?_⟩
    · simp only [Log.rename, Log.to, List.length_append]
      omega
    · rw [content_to, hOld]
      exact hFits.pos
    · intro hSame
      have hHandle : s.shared.inodes.length = r.handle :=
        Option.some.inj hSame
      omega
  · have hKept := hSound.kept
    have hCut := hFits.cut
    have hSplit :=
      List.take_append_drop r.pos (s.shared.content r.handle)
    have hComing' :
        ((s.shared.rename r.out).to
            (.carrying r archived)).coming =
          (s.shared.content r.handle).drop r.pos := by
      rw [← hOld]
      rfl
    have hSpare' :
        ((s.shared.rename r.out).to
            (.carrying r archived)).spare = [] := rfl
    rw [hComing, hSpare, liveLines_eq hLive] at hKept
    rw [hComing', hSpare', liveLines_to, liveLines_rename,
      archived_to, archived_rename]
    rw [List.perm_iff_count] at hKept hCut ⊢
    intro line
    have hBefore := hKept line
    have hLine := hCut line
    have hWhole := congrArg (List.count line) hSplit
    simp only [List.count_append, List.count_nil]
      at hBefore hLine hWhole ⊢
    change
      _ = _ + List.count line (appended s) +
        List.count line s.shared.unpublished + _
    omega

/- A publish fails when its lines are archived. -/
theorem Sound.unpublished
    {archived : Bool}
    (hSound : Sound found s)
    (hPass : s.shared.pass = .publishing r archived) :
    Sound found
      { s with
        shared :=
          (markPublishFailed s.shared r archived).to .idle } := by
  rcases hSound.publishing hPass with
    ⟨rfl, hLive, hFits, hComing, hSpare⟩
  refine ⟨hSound.live, trivial, ?_⟩
  have hKept := hSound.kept
  rw [hComing, hSpare] at hKept
  change
    (s.shared.liveLines ++ s.shared.archived ++ []).Perm
      (found.liveLines ++ found.archived ++ appended s ++
        (s.shared.unpublished ++
          r.removed.of (s.shared.content r.handle)) ++ [])
  simpa using hKept

/- The pass reads what the replaced file has gained. -/
theorem Sound.carried
    {archived : Bool}
    (hSound : Sound found s)
    (hPass : s.shared.pass = .carrying r archived) :
    Sound found
      { s with
        shared :=
          s.shared.to
            (.gaining r
              ((s.shared.content r.handle).drop r.pos)
              archived) } := by
  have hStage := hSound.stage
  unfold StageOk at hStage
  rw [hPass] at hStage
  refine ⟨hSound.live, ⟨hStage.1, hStage.2.2.2.1⟩, ?_⟩
  have hKept := hSound.kept
  unfold Log.coming Log.spare at hKept
  rw [hPass] at hKept
  exact hKept

/- The live file gains it in turn. -/
theorem Sound.gained
    {gained : List Line}
    {archived : Bool}
    (hSound : Sound found s)
    (hPass : s.shared.pass = .gaining r gained archived) :
    Sound found
      { s with
        shared :=
          (s.shared.live.elim s.shared
            (s.shared.write · gained)).to
            (if archived then .idle else .noting r) } := by
  have hStage := hSound.stage
  unfold StageOk at hStage
  rw [hPass] at hStage
  rcases Option.isSome_iff_exists.mp hStage.2 with
    ⟨live, hLive⟩
  rw [hStage.1, if_pos rfl, hLive]
  change
    Sound found
      { s with
        shared := (s.shared.write live gained).to .idle }
  have hBound := hSound.live live hLive
  refine ⟨?_, trivial, ?_⟩
  · intro other hOther
    have hOld := hSound.live other hOther
    simpa [Log.write, Log.to] using hOld
  · have hKept := hSound.kept
    unfold Log.coming Log.spare at hKept
    rw [hPass] at hKept
    rw [liveLines_to, liveLines_write hLive hBound,
      archived_to, archived_write]
    rw [List.perm_iff_count] at hKept ⊢
    intro line
    have hBefore := hKept line
    simp only [List.count_append, Log.coming, Log.spare,
      List.count_nil] at hBefore ⊢
    change
      _ = _ + List.count line (appended s) +
        List.count line s.shared.unpublished + _
    simp only [Log.to, List.count_nil]
    omega

end EventLog

------------------------------------------------------------
-- Every Run
------------------------------------------------------------

namespace EventLog

variable {found : Log} {s : Calls}
variable {eventOf : Line → Option String}
variable {dropped : Nat → Nat → Line}

/- A rewrite goes on to a stage before the archive. -/
theorem Sound.rewrites
    {pass : Stage}
    {r : Rewrite}
    (hSound : Sound found s)
    (hPass :
      s.shared.pass = .copying r ∨
        s.shared.pass = .measuring r ∨
        s.shared.pass = .checking r ∨
        s.shared.pass = .archiving r)
    (hNext :
      pass = .measuring (r.copy (s.shared.content r.handle)) ∨
        pass = .copying r ∨ pass = .checking r ∨
        pass = .archiving r ∨ pass = .idle) :
    Sound found { s with shared := s.shared.to pass } := by
  rcases hSound.rewriting hPass with
    ⟨hLive, hFits, hComing, hSpare⟩
  rcases hNext with rfl | rfl | rfl | rfl | rfl
  · exact
      hSound.to hComing hSpare rfl rfl rfl rfl
        ⟨hLive, hFits.copy⟩ rfl rfl
  · exact
      hSound.to hComing hSpare rfl rfl rfl rfl
        ⟨hLive, hFits⟩ rfl rfl
  · exact
      hSound.to hComing hSpare rfl rfl rfl rfl
        ⟨hLive, hFits⟩ rfl rfl
  · exact
      hSound.to hComing hSpare rfl rfl rfl rfl
        ⟨hLive, hFits⟩ rfl rfl
  · exact
      hSound.to hComing hSpare rfl rfl rfl rfl trivial rfl rfl

/- A rewrite whose archive fails has changed no file. -/
theorem Sound.unarchived
    {r : Rewrite}
    (hSound : Sound found s)
    (hPass : s.shared.pass = .archiving r) :
    Sound found
      { s with
        shared :=
          if r.overCeiling then
            (markArchiveFailed s.shared r).to
              (.publishing r false)
          else (markArchiveFailed s.shared r).to .idle } := by
  rcases hSound.rewriting (Or.inr (Or.inr (Or.inr hPass))) with
    ⟨hLive, hFits, hComing, hSpare⟩
  rcases frame_markArchiveFailed (s := s.shared) r with
    ⟨hInodes, hLive', hArchives, hUnpublished⟩
  have hArchived :
      (markArchiveFailed s.shared r).archived =
        s.shared.archived := by
    unfold Log.archived
    rw [hArchives]
  rw [hFits.ceiling, if_neg Bool.false_ne_true]
  exact
    hSound.to hComing hSpare hInodes hLive' hArchived
      hUnpublished trivial rfl rfl

/- What holds of the log holds after each step of a pass. -/
theorem sound_of_advance
    {event : Event}
    (hSound : Sound found s)
    (hBelow : belowCeiling s (.world event) = true) :
    Sound found
      { s with
        shared := advance eventOf dropped s.shared event } := by
  unfold advance
  split
  · rename_i now job hPass
    exact
      hSound.to (by simp [Log.coming, hPass])
        (by simp [Log.spare, hPass]) rfl rfl rfl rfl trivial
        rfl rfl
  · rename_i hPass
    exact hSound.start hPass
  · rename_i hPass
    exact hSound.read hPass hBelow
  · rename_i hPass
    exact hSound.split hPass
  · rename_i hPass
    exact hSound.seek hPass
  · rename_i hPass
    exact hSound.rewrites (Or.inl hPass) (Or.inl rfl)
  · rename_i r hPass
    split
    · exact
        hSound.rewrites (Or.inr (Or.inl hPass))
          (Or.inr (Or.inr (Or.inl rfl)))
    · exact
        hSound.rewrites (Or.inr (Or.inl hPass))
          (Or.inr (Or.inl rfl))
  · rename_i r hPass
    split
    · exact
        hSound.rewrites (Or.inr (Or.inr (Or.inl hPass)))
          (Or.inr (Or.inr (Or.inr (Or.inl rfl))))
    · exact
        hSound.rewrites (Or.inr (Or.inr (Or.inl hPass)))
          (Or.inr (Or.inr (Or.inr (Or.inr rfl))))
  · rename_i hPass
    exact hSound.archived hPass
  · rename_i hPass
    exact hSound.unarchived hPass
  · rename_i hPass
    exact hSound.published hPass
  · rename_i hPass
    exact hSound.unpublished hPass
  · rename_i hPass
    exact hSound.carried hPass
  · rename_i hPass
    exact hSound.gained hPass
  · rename_i r hPass
    -- Only a head past the ceiling is dropped unarchived.
    have hStage := hSound.stage
    unfold StageOk at hStage
    rw [hPass] at hStage
    exact hStage.elim
  · exact hSound

/- What holds of the log holds after each move. -/
theorem sound_of_next
    {move : Move}
    (hSound : Sound found s)
    (hBelow : belowCeiling s move = true)
    (hInTime : writesInTime s move = true) :
    Sound found ((log eventOf dropped).step s move).1 := by
  change
    Sound found
      (s.next .opening append (advance eventOf dropped) move)
  cases move with
  | start line =>
      refine ⟨hSound.live, hSound.stage, ?_⟩
      have hAppended :
          appended
              { s with calls := s.calls ++ [.opening line] } =
            appended s := by
        simp [appended, Appender.wrote]
      change
        (s.shared.liveLines ++ s.shared.archived ++
            s.shared.coming).Perm
          (found.liveLines ++ found.archived ++
            appended
              { s with calls := s.calls ++ [.opening line] } ++
            s.shared.unpublished ++ s.shared.spare)
      rw [hAppended]
      exact hSound.kept
  | step i choice =>
      unfold Interleave.Crew.next
      simp only
      cases hCall : s.calls[i]? with
      | none => exact hSound
      | some call =>
          cases call with
          | opening line =>
              cases hLive : s.shared.live with
              | none =>
                  simp only [append, hLive]
                  exact hSound.created hCall hLive
              | some handle =>
                  simp only [append, hLive]
                  exact hSound.opened hCall
          | writing handle line =>
              have hPlace :
                  s.shared.live = some handle ∨
                    s.shared.pass.awaits = some handle := by
                simpa [writesInTime, hCall] using hInTime
              rcases hPlace with hLive | hAwaits
              · exact hSound.wroteLive hCall hLive
              · exact hSound.wroteReplaced hCall hAwaits
          | written line => exact hSound
  | world event => exact sound_of_advance hSound hBelow

theorem sound_found
    (live : Option (List Line))
    (archives : List (Nat × List Line))
    (archiveFailed publishFailed : Option Nat) :
    Sound (.found live archives archiveFailed publishFailed)
      { shared :=
          .found live archives archiveFailed publishFailed
        calls := [] } := by
  refine ⟨?_, trivial, ?_⟩
  · intro handle hLive
    cases live with
    | none => cases hLive
    | some lines =>
        cases hLive
        exact Nat.zero_lt_one
  · simp [appended, Log.coming, Log.spare, Log.found]

/- Only a publish that fails leaves lines in both places. -/
theorem unpublished_of_next
    {move : Move}
    (hMove : failsPublish move = false) :
    ((log eventOf dropped).step s move).1.shared.unpublished =
      s.shared.unpublished := by
  change
    (s.next .opening append (advance eventOf dropped)
      move).shared.unpublished = s.shared.unpublished
  cases move with
  | start line => rfl
  | step i choice =>
      unfold Interleave.Crew.next
      simp only
      cases s.calls[i]? with
      | none => rfl
      | some call =>
          cases call with
          | opening line =>
              cases hLive : s.shared.live with
              | none =>
                  simp only [append, hLive]
                  rfl
              | some handle => simp only [append, hLive]
          | writing handle line => rfl
          | written line => rfl
  | world event =>
      have hElim :
          ∀ lines,
            (s.shared.live.elim s.shared
              (s.shared.write · lines)).unpublished =
                s.shared.unpublished := by
        intro lines
        cases s.shared.live <;> rfl
      change
        (advance eventOf dropped s.shared event).unpublished =
          s.shared.unpublished
      unfold advance
      split
      · rfl
      · unfold start
        split
        · rfl
        · split <;> rfl
      · rename_i now job handle hPass
        unfold read
        cases job with
        | compactLogTail keepBytes minFreed ceiling =>
            simp only
            split
            · rfl
            · split <;> rfl
        | rotateLogByAge retentionDays => rfl
        | trimToTurns keep =>
            simp only
            split <;> rfl
      · unfold split
        split <;> rfl
      · unfold seek
        split <;> rfl
      · rfl
      · split <;> rfl
      · split <;> rfl
      · exact (frame_archiveRemoved _).2.2
      · split <;> exact (frame_markArchiveFailed _).2.2.2
      · rfl
      · cases hMove
      · rfl
      · exact hElim _
      · exact hElim _
      · rfl

/-
  In a run that reads no log past its ceiling and writes to
  no replaced file too late, no line is lost.
-/
theorem noLoss
    (eventOf : Line → Option String)
    (dropped : Nat → Nat → Line)
    (live : Option (List Line))
    (archives : List (Nat × List Line))
    (archiveFailed publishFailed : Option Nat)
    (moves : List Move)
    (hBelow :
      ∀ t ∈ (log eventOf dropped).trace
          { shared :=
              .found live archives archiveFailed publishFailed
            calls := [] }
          moves,
        belowCeiling t.before t.input = true)
    (hInTime :
      ∀ t ∈ (log eventOf dropped).trace
          { shared :=
              .found live archives archiveFailed publishFailed
            calls := [] }
          moves,
        writesInTime t.before t.input = true) :
    ∀ t ∈ (log eventOf dropped).trace
        { shared :=
            .found live archives archiveFailed publishFailed
          calls := [] }
        moves,
      t.after.shared.pass = .idle →
        NoLoss
          (.found live archives archiveFailed publishFailed)
          moves t.after := by
  intro t hMember hIdle
  have hSound :=
    (StepMachine.invariant_of_mem_trace
      (Sound
        (.found live archives archiveFailed publishFailed))
      (fun s move =>
        belowCeiling s move = true ∧
          writesInTime s move = true)
      (fun _ _ hSound hOk => sound_of_next hSound hOk.1 hOk.2)
      (fun t hTurn => ⟨hBelow t hTurn, hInTime t hTurn⟩)
      (sound_found live archives archiveFailed publishFailed)
      hMember).2
  have hKept := hSound.kept
  unfold Log.coming Log.spare at hKept
  rw [hIdle] at hKept
  simp only [List.append_nil] at hKept
  refine ⟨?_, hKept, ?_⟩
  · intro line hWritten
    have hAppended : line ∈ appended t.after :=
      List.mem_filterMap.mpr ⟨_, hWritten, rfl⟩
    have hHeld :=
      hKept.symm.subset
        (List.mem_append_left _
          (List.mem_append_right _ hAppended))
    exact List.mem_append.mp hHeld
  · intro hPublished
    exact
      (StepMachine.invariant_of_mem_trace
        (fun s : Calls => s.shared.unpublished = [])
        (fun _ move => failsPublish move = false)
        (fun _ _ hNone hMove =>
          (unpublished_of_next hMove).trans hNone)
        (fun t hTurn =>
          hPublished t.input
            (StepMachine.input_mem_of_mem_trace hTurn))
        rfl hMember).2

/- Two lines in the log, and no archives. -/
def twoLines : Log :=
  .found (some [⟨[97], by decide⟩, ⟨[98], by decide⟩]) [] none
    none

/-
  A compaction with one appender that opened the log before
  the new file was in place, and writes before the old one
  is read again.
-/
def carriedLine : List Move :=
  [.start ⟨[99], by decide⟩,
    .world (.begins 0 (.compactLogTail 3 1 100)),
    .step 0 (), .world .advances, .world .advances,
    .world .advances, .world .advances,
    .world .advances, .step 0 (), .world .advances,
    .world .advances]

theorem noLoss_carriedLine :
    ((log (fun _ => none) (fun _ _ => ⟨[0], by decide⟩)).trace
        { shared := twoLines, calls := [] }
        carriedLine).length = 11 ∧
      ∀ t ∈
          (log (fun _ => none)
            (fun _ _ => ⟨[0], by decide⟩)).trace
            { shared := twoLines, calls := [] } carriedLine,
        t.after.shared.pass = .idle →
          NoLoss twoLines carriedLine t.after :=
  ⟨rfl,
    noLoss _ _ _ _ _ _ _ (by decide)
      (by decide)⟩

/-
  An appender that opened the log before the new file was in
  place, and writes when the old one has been read again:
  its line is nowhere.
-/
theorem not_noLoss_lateLine :
    ¬ ∀ (live : Option (List Line)) (moves : List Move),
      (∀ t ∈ (log (fun _ => none)
            (fun _ _ => ⟨[0], by decide⟩)).trace
          { shared := .found live [] none none, calls := [] }
          moves,
        belowCeiling t.before t.input = true) →
      ∀ t ∈ (log (fun _ => none)
            (fun _ _ => ⟨[0], by decide⟩)).trace
          { shared := .found live [] none none, calls := [] }
          moves,
        t.after.shared.pass = .idle →
          NoLoss (.found live [] none none) moves t.after := by
  intro hClaim
  have hRun :=
    hClaim (some [⟨[97], by decide⟩, ⟨[98], by decide⟩])
      [.start ⟨[99], by decide⟩,
        .world (.begins 0 (.compactLogTail 3 1 100)),
        .step 0 (), .world .advances, .world .advances,
        .world .advances, .world .advances, .world .advances,
        .world .advances, .step 0 (), .world .advances]
      (by decide)
  have hTurn :
      ∃ t ∈ (log (fun _ => none)
            (fun _ _ => ⟨[0], by decide⟩)).trace
          { shared :=
              .found
                (some [⟨[97], by decide⟩, ⟨[98], by decide⟩]) []
                none none
            calls := [] }
          [.start ⟨[99], by decide⟩,
            .world (.begins 0 (.compactLogTail 3 1 100)),
            .step 0 (), .world .advances, .world .advances,
            .world .advances, .world .advances,
            .world .advances, .world .advances, .step 0 (),
            .world .advances],
        t.after.shared.pass = .idle ∧
          .written ⟨[99], by decide⟩ ∈ t.after.calls ∧
          ⟨[99], by decide⟩ ∉ t.after.shared.liveLines ∧
          ⟨[99], by decide⟩ ∉ t.after.shared.archived := by
    decide
  rcases hTurn with
    ⟨t, hMember, hIdle, hWritten, hLive, hArchived⟩
  rcases (hRun t hMember hIdle).held _ hWritten with
    hHeld | hHeld
  · exact hLive hHeld
  · exact hArchived hHeld

end EventLog
