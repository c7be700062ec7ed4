import AgentWays.EventLog.Maintenance

/-
  What one step of a pass, or of an appender, does to the
  lines of the log.

  Main declarations:
    * `EventLog.perm_compaction`
    * `EventLog.perm_splitExpired`
    * `EventLog.Ready.write`
    * `EventLog.Ready.copy`
-/

------------------------------------------------------------
-- What A Pass Removes
------------------------------------------------------------

namespace EventLog

variable {eventOf : Line → Option String}

/- A compaction keeps or removes each line it has read. -/
theorem perm_compaction
    (keepBytes : Nat)
    (data : List Line) :
    ((compaction eventOf keepBytes data).kept ++
        (compaction eventOf keepBytes data).removed).Perm
      data := by
  unfold compaction
  simp only
  generalize linesTo (size data - keepBytes) data = start
  have hHead :=
    List.filter_append_perm (isJudgeCall eventOf)
      (data.take start)
  have hSwap :
      ((data.take start).filter (isJudgeCall eventOf) ++
          data.drop start ++
          (data.take start).filter
            (fun line => !isJudgeCall eventOf line)).Perm
        ((data.take start).filter (isJudgeCall eventOf) ++
          (data.take start).filter
            (fun line => !isJudgeCall eventOf line) ++
          data.drop start) := by
    rw [List.append_assoc, List.append_assoc]
    exact List.perm_append_comm.append_left _
  have hAll := hSwap.trans (hHead.append_right _)
  rw [List.take_append_drop] at hAll
  exact hAll

/-
  The scan sorts each line it passes to one side, and counts
  it; `done` is what it has passed before.
-/
theorem perm_splitFrom
    {cutoff : Nat}
    {s found : Split}
    {done data : List Line}
    (hFrom : s.currentFrom = done.length)
    (hPerm : (s.kept ++ s.expired).Perm done)
    (hFound : splitFrom eventOf cutoff s data = some found) :
    found.currentFrom ≤ (done ++ data).length ∧
      (found.kept ++ found.expired).Perm
        ((done ++ data).take found.currentFrom) := by
  induction data generalizing s done with
  | nil => simp [splitFrom] at hFound
  | cons line rest ih =>
      have hCount :
          s.currentFrom + 1 = (done ++ [line]).length := by
        simp [hFrom]
      have hKeep :
          splitFrom eventOf cutoff
              { s with
                kept := s.kept ++ [line]
                currentFrom := s.currentFrom + 1 }
              rest = some found →
            found.currentFrom ≤
                (done ++ line :: rest).length ∧
              (found.kept ++ found.expired).Perm
                ((done ++ line :: rest).take
                  found.currentFrom) := by
        intro hNext
        have hLine :
            (s.kept ++ [line] ++ s.expired).Perm
              (done ++ [line]) := by
          rw [List.append_assoc]
          exact
            (List.perm_append_comm.append_left _).trans
              (by simpa using hPerm.append_right [line])
        have hScan :=
          @ih
            { s with
              kept := s.kept ++ [line]
              currentFrom := s.currentFrom + 1 }
            (done ++ [line]) hCount hLine
        simpa using hScan hNext
      rw [splitFrom] at hFound
      split at hFound
      · exact hKeep hFound
      · split at hFound
        · rename_i ts hTs
          split at hFound
          · split at hFound
            · cases hFound
            · cases hFound
              rw [hFrom]
              simpa using hPerm
          · have hLine :
                (s.kept ++ (s.expired ++ [line])).Perm
                  (done ++ [line]) := by
              rw [← List.append_assoc]
              exact hPerm.append_right [line]
            have hScan :=
              @ih
                { s with
                  expired := s.expired ++ [line]
                  currentFrom := s.currentFrom + 1 }
                (done ++ [line]) hCount hLine
            simpa using hScan hFound
        · exact hKeep hFound

theorem perm_splitExpired
    {cutoff : Nat}
    {data : List Line}
    {found : Split}
    (hFound : splitExpired eventOf cutoff data = some found) :
    found.currentFrom ≤ data.length ∧
      (found.kept ++ found.expired).Perm
        (data.take found.currentFrom) := by
  have hScan :
      found.currentFrom ≤ ([] ++ data).length ∧
        (found.kept ++ found.expired).Perm
          (([] ++ data).take found.currentFrom) :=
    perm_splitFrom rfl (by simp) hFound
  simpa using hScan

/- The cut of a trim lies in the log. -/
theorem turnCut_le
    {before cut : Nat}
    {data : List Line}
    (hCut : turnCut before data = some cut) :
    cut ≤ data.length := by
  induction data generalizing before cut with
  | nil => simp [turnCut] at hCut
  | cons line rest ih =>
      have hRest :
          ∀ before,
            (turnCut before rest).map (· + 1) = some cut →
              cut ≤ (line :: rest).length := by
        intro before hMap
        rcases Option.map_eq_some_iff.mp hMap with
          ⟨place, hPlace, rfl⟩
        simpa using ih hPlace
      unfold turnCut at hCut
      split at hCut
      · cases before with
        | zero =>
            rw [← Option.some.inj hCut]
            exact Nat.zero_le _
        | succ before => exact hRest before hCut
      · exact hRest before hCut

end EventLog

------------------------------------------------------------
-- Files
------------------------------------------------------------

namespace EventLog

variable {s : Log} {handle other : Nat} {lines : List Line}

@[simp] theorem content_to
    (pass : Stage) :
    (s.to pass).content handle = s.content handle := rfl

@[simp] theorem liveLines_to
    (pass : Stage) :
    (s.to pass).liveLines = s.liveLines := rfl

@[simp] theorem archived_to
    (pass : Stage) :
    (s.to pass).archived = s.archived := rfl

@[simp] theorem archived_write :
    (s.write handle lines).archived = s.archived := rfl

@[simp] theorem archived_rename :
    (s.rename lines).archived = s.archived := rfl

theorem content_write_self
    (lines : List Line)
    (hBound : handle < s.inodes.length) :
    (s.write handle lines).content handle =
      s.content handle ++ lines := by
  simp [Log.content, Log.write,
    List.getElem?_eq_getElem hBound]

theorem content_write_ne
    (hOther : other ≠ handle) :
    (s.write handle lines).content other =
      s.content other := by
  simp [Log.content, Log.write, Ne.symm hOther]

theorem content_rename_new :
    (s.rename lines).content s.inodes.length = lines := by
  simp [Log.content, Log.rename]

theorem content_rename_old
    (lines : List Line)
    (hBound : handle < s.inodes.length) :
    (s.rename lines).content handle = s.content handle := by
  simp [Log.content, Log.rename,
    List.getElem?_append_left hBound]

theorem liveLines_eq
    (hLive : s.live = some handle) :
    s.liveLines = s.content handle := by
  simp [Log.liveLines, hLive]

theorem liveLines_rename :
    (s.rename lines).liveLines = lines := by
  rw [liveLines_eq (s := s.rename lines) rfl,
    content_rename_new]

theorem archived_archive
    (now : Nat) :
    (s.archive now lines).archived = s.archived ++ lines := by
  simp [Log.archived, Log.archive]

/- The archive holds what was removed, and nothing else. -/
theorem archived_archiveRemoved
    (r : Rewrite) :
    (archiveRemoved s r).archived =
      s.archived ++ r.removed.of (s.content r.handle) := by
  unfold archiveRemoved
  split
  · rename_i hNone
    simp [hNone, Removed.of]
  · exact archived_archive r.now

theorem frame_archiveRemoved
    (r : Rewrite) :
    (archiveRemoved s r).inodes = s.inodes ∧
      (archiveRemoved s r).live = s.live ∧
      (archiveRemoved s r).unpublished = s.unpublished := by
  unfold archiveRemoved
  split <;> exact ⟨rfl, rfl, rfl⟩

theorem frame_markArchiveFailed
    (r : Rewrite) :
    (markArchiveFailed s r).inodes = s.inodes ∧
      (markArchiveFailed s r).live = s.live ∧
      (markArchiveFailed s r).archives = s.archives ∧
      (markArchiveFailed s r).unpublished = s.unpublished := by
  unfold markArchiveFailed
  split <;> exact ⟨rfl, rfl, rfl, rfl⟩

end EventLog

------------------------------------------------------------
-- Rewrites
------------------------------------------------------------

namespace EventLog

variable {r : Rewrite} {data : List Line}

/-
  A rewrite fits the lines of its handle: what it keeps and
  what it removes are the lines it has read.
-/
structure Rewrite.Fits
    (r : Rewrite)
    (data : List Line) : Prop where
  ceiling : r.overCeiling = false
  pos : r.pos ≤ data.length
  head : ∀ count, r.removed = .head count → count ≤ r.pos
  cut :
    (r.out ++ r.removed.of data).Perm (data.take r.pos)

/- What a rewrite removes does not depend on what is added. -/
theorem Rewrite.Fits.removed_append
    (hFits : r.Fits data)
    (more : List Line) :
    r.removed.of (data ++ more) = r.removed.of data := by
  cases hRemoved : r.removed with
  | lines list => rfl
  | head count =>
      have hCount := hFits.head count hRemoved
      have hPos := hFits.pos
      exact List.take_append_of_le_length (by omega)

theorem Rewrite.Fits.append
    (hFits : r.Fits data)
    (more : List Line) :
    r.Fits (data ++ more) := by
  refine ⟨hFits.ceiling, ?_, hFits.head, ?_⟩
  · have hPos := hFits.pos
    rw [List.length_append]
    omega
  · rw [hFits.removed_append,
      List.take_append_of_le_length hFits.pos]
    exact hFits.cut

/- The rest of the file is kept as it is copied. -/
theorem Rewrite.Fits.copy
    (hFits : r.Fits data) :
    (r.copy data).Fits data := by
  have hPos : max r.pos data.length = data.length :=
    Nat.max_eq_right hFits.pos
  refine ⟨hFits.ceiling, ?_, ?_, ?_⟩
  · exact Nat.le_of_eq hPos
  · intro count hRemoved
    exact Nat.le_trans (hFits.head count hRemoved)
      (Nat.le_max_left _ _)
  · change
      (r.out ++ data.drop r.pos ++ r.removed.of data).Perm
        (data.take (max r.pos data.length))
    rw [hPos, List.take_length, List.append_assoc]
    have hSwap :
        (r.out ++ (data.drop r.pos ++ r.removed.of data)).Perm
          (r.out ++ r.removed.of data ++ data.drop r.pos) := by
      rw [List.append_assoc]
      exact List.perm_append_comm.append_left _
    have hAll := hSwap.trans (hFits.cut.append_right _)
    rw [List.take_append_drop] at hAll
    exact hAll

end EventLog
