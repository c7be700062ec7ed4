import AgentWays.Attend.Tick
import AgentWays.Attend.PeersSpec
import Mathlib.Algebra.Order.BigOperators.Group.List

/-
  What each step of a tick records and shows.

  A poll adds a key to the sensor's seen-set for a file that
  is not for the session to read, for a message the cold
  start withholds and counts, or for one that a line of the
  poll shows. A line that shows a message is never of low
  priority.

  Key definitions include:
    * `Attend.signalOf`
    * `Attend.unreadBy`
    * `Attend.CountedByPoll`
    * `Attend.PollAccounts`
    * `Attend.Loud`

  Main declarations:
    * `Attend.mem_seenSignals_poll`
    * `Attend.loud_poll`
    * `Attend.disclose_cases`
    * `Attend.mem_checkpoint`
-/

------------------------------------------------------------
-- Files That Are Not Read
------------------------------------------------------------

namespace Attend

/- The signal a file reads as. -/
def signalOf
    (f : SignalFile) : Option ParsedSignal :=
  match readSignalFile f with
  | .ok content => parseSignal (wireLine content)
  | .error _ => none

theorem signalOf_eq_some
    {f : SignalFile}
    {sig : ParsedSignal} :
    signalOf f = some sig ↔ Parsed f sig := by
  unfold signalOf Parsed
  cases hRead : readSignalFile f with
  | error e => simp
  | ok content => simp

/-
  A message that is the session's own, of a tombstoned
  sender, or in a tray for another session.
-/
def unreadBy
    (marks : Marks)
    (ids : List String)
    (dirs : List ReceiveDir)
    (f : SignalFile) : Bool :=
  match signalOf f with
  | none => false
  | some sig =>
      marks.hidesSender sig.senderId f.mtime ||
        sig.isOwn ids ||
        dirs.any
          (fun d =>
            decide (d.path = f.dir) && d.room.isTray &&
              !sig.trayReads ids)

variable {poll : PollEnv} {ids : List String}

theorem mem_receiveFiles
    {dirs : List ReceiveDir}
    {files : List SignalFile}
    {room : Room}
    {f : SignalFile} :
    (room, f) ∈ receiveFiles dirs files ↔
      f ∈ files ∧ ∃ d ∈ dirs, d.path = f.dir ∧ d.room = room := by
  simp only [receiveFiles, List.mem_flatMap, List.mem_map,
    List.mem_filter, decide_eq_true_eq, Prod.mk.injEq]
  constructor
  · rintro ⟨d, hDir, g, ⟨hFile, hPath⟩, rfl, rfl⟩
    exact ⟨hFile, d, hDir, hPath.symm, rfl⟩
  · rintro ⟨hFile, d, hDir, hPath, rfl⟩
    exact ⟨d, hDir, f, ⟨hFile, hPath.symm⟩, rfl, rfl⟩

/- What the poll marks at once is no message, or unread. -/
theorem unread_of_marks
    {seen : Finset String}
    {room : Room}
    {f : SignalFile}
    {files : List SignalFile}
    (hMem : (room, f) ∈ receiveFiles poll.dirs files)
    (hMarks : (pollVerdict poll ids seen room f).marks = true) :
    signalOf f = none ∨
      unreadBy poll.marks ids poll.dirs f = true := by
  cases hSignal : signalOf f with
  | none => exact Or.inl rfl
  | some sig =>
      refine Or.inr ?_
      rcases signalOf_eq_some.mp hSignal with
        ⟨content, hRead, hParse⟩
      rcases mem_receiveFiles.mp hMem with
        ⟨-, d, hDir, hPath, rfl⟩
      simp only [unreadBy, hSignal, Bool.or_eq_true,
        List.any_eq_true, Bool.and_eq_true,
        decide_eq_true_eq, Bool.not_eq_true']
      unfold pollVerdict at hMarks
      rw [hRead] at hMarks
      simp only [hParse] at hMarks
      split at hMarks
      · cases hMarks
      · split at hMarks
        · cases hMarks
        · split at hMarks
          · cases hMarks
          · split at hMarks
            · rename_i hTomb
              exact Or.inl (Or.inl hTomb)
            · split at hMarks
              · rename_i hOwn
                exact Or.inl (Or.inr hOwn)
              · split at hMarks
                · rename_i hTray
                  simp only [Bool.and_eq_true,
                    Bool.not_eq_true'] at hTray
                  exact Or.inr
                    ⟨d, hDir, ⟨hPath, hTray.1⟩, hTray.2⟩
                · cases hMarks

/- The keys the visits add are those of marked files. -/
theorem mem_seen_foldl_pollVisit
    {seen : Finset String}
    {files : List (Room × SignalFile)}
    {found : List Found}
    {k : String}
    (hMem :
      k ∈ (files.foldl (pollVisit poll ids)
        (seen, found)).1) :
    k ∈ seen ∨
      ∃ c ∈ files,
        seenKey c.2.name = k ∧
          (pollVerdict poll ids seen c.1 c.2).marks = true := by
  induction files generalizing seen found with
  | nil => exact Or.inl hMem
  | cons c rest ih =>
      -- A visit that marks is the same as seen from the start.
      have hMarked :
          (pollVerdict poll ids seen c.1 c.2).marks = true →
          k ∈ (rest.foldl (pollVisit poll ids)
            (insert (seenKey c.2.name) seen, found)).1 →
          k ∈ seen ∨
            ∃ c' ∈ c :: rest,
              seenKey c'.2.name = k ∧
                (pollVerdict poll ids seen c'.1
                  c'.2).marks = true := by
        intro hMarks hRest
        rcases ih hRest with hSeen | ⟨c', hIn, hKey, hMarks'⟩
        · rcases Finset.mem_insert.mp hSeen with rfl | hOld
          · exact Or.inr ⟨c, List.mem_cons_self, rfl, hMarks⟩
          · exact Or.inl hOld
        · by_cases hSame :
              seenKey c'.2.name = seenKey c.2.name
          · exact Or.inr ⟨c, List.mem_cons_self,
              hSame.symm.trans hKey, hMarks⟩
          · rw [pollVerdict_insert hSame] at hMarks'
            exact Or.inr ⟨c', List.mem_cons_of_mem c hIn, hKey,
              hMarks'⟩
      have hSkip :
          ∀ found',
            k ∈ (rest.foldl (pollVisit poll ids)
              (seen, found')).1 →
            k ∈ seen ∨
              ∃ c' ∈ c :: rest,
                seenKey c'.2.name = k ∧
                  (pollVerdict poll ids seen c'.1
                    c'.2).marks = true := by
        intro found' hRest
        rcases ih hRest with hSeen | ⟨c', hIn, hKey, hMarks'⟩
        · exact Or.inl hSeen
        · exact Or.inr ⟨c', List.mem_cons_of_mem c hIn, hKey,
            hMarks'⟩
      rw [List.foldl_cons] at hMem
      unfold pollVisit at hMem
      cases hVerdict : pollVerdict poll ids seen c.1 c.2 with
      | passed =>
          simp only [hVerdict] at hMem
          exact hSkip found hMem
      | skipped line =>
          simp only [hVerdict] at hMem
          exact hMarked (by rw [hVerdict]; rfl) hMem
      | marked =>
          simp only [hVerdict] at hMem
          exact hMarked (by rw [hVerdict]; rfl) hMem
      | found sig =>
          simp only [hVerdict] at hMem
          exact hSkip _ hMem

end Attend

------------------------------------------------------------
-- One Poll
------------------------------------------------------------

namespace Attend

variable {p : PeerSensor} {env : PollEnv}
variable {files : List SignalFile}

theorem length_answers
    (p : PeerSensor)
    (env : PollEnv)
    (files : List SignalFile) :
    ∀ plan, (p.scanSignals env files).plan = some plan →
      plan.deliver.length =
        (p.scanSignals env files).found.length := by
  intro plan hPlan
  unfold PeerSensor.scanSignals at hPlan ⊢
  dsimp only at hPlan ⊢
  split at hPlan
  · cases hPlan
    rw [length_plan, List.length_map]
  · cases hPlan

/- The note counts the messages withheld. -/
theorem notShown_eq_withheld
    (p : PeerSensor)
    (env : PollEnv)
    (files : List SignalFile) :
    ∀ plan, (p.scanSignals env files).plan = some plan →
      plan.notShown = plan.deliver.countP (fun d => !d) →
      plan.notShown =
        (p.scanSignals env files).withheld.length := by
  intro plan hPlan hCount
  have hLength := length_answers p env files plan hPlan
  calc
    plan.notShown
      = plan.deliver.countP (fun d => !d) := hCount
    _ = (((p.scanSignals env files).found.zip
            plan.deliver).map Prod.snd).countP
          (fun d => !d) := by
        rw [List.map_snd_zip (by omega)]
    _ = ((p.scanSignals env files).found.zip
            plan.deliver).countP (fun a => !a.2) := by
        rw [List.countP_map]
        rfl
    _ = (p.scanSignals env files).withheld.length := by
        rw [SignalScan.withheld, SignalScan.answers, hPlan,
          List.length_filterMap_eq_countP]
        apply List.countP_congr
        rintro ⟨f, b⟩ _
        cases b <;> simp

/-
  The poll's cold start withholds the file and reports a
  note that counts those it withholds.
-/
def CountedByPoll
    (p : PeerSensor)
    (env : PollEnv)
    (files : List SignalFile)
    (f : SignalFile) : Prop :=
  f ∈ (p.scanSignals env files).withheld.map Found.file ∧
    ∃ o ∈ (p.poll env files).2,
      heldBackNote
        (p.scanSignals env files).withheld.length =
          some o.line

/- Why a poll may put a key in the sensor's seen-set. -/
def PollAccounts
    (p : PeerSensor)
    (env : PollEnv)
    (files : List SignalFile)
    (k : String) : Prop :=
  ∃ f ∈ files,
    seenKey f.name = k ∧
      f.dir ∈ env.dirs.map ReceiveDir.path ∧
      (signalOf f = none ∨
        unreadBy env.marks (p.readingIds env) env.dirs f =
          true ∨
        CountedByPoll p env files f)

theorem mem_found_scanSignals
    {f : Found}
    (hMem : f ∈ (p.scanSignals env files).found) :
    (f.room, f.file) ∈ receiveFiles env.dirs files := by
  have hVisited :=
    (List.mem_insertionSort _).mp hMem
  have hInv :
      ∀ (cs : List (Room × SignalFile))
        (acc : Finset String × List Found),
        f ∈ (cs.foldl (pollVisit env (p.readingIds env))
          acc).2 →
        f ∈ acc.2 ∨ (f.room, f.file) ∈ cs := by
    intro cs
    induction cs with
    | nil =>
        intro acc hIn
        exact Or.inl hIn
    | cons c rest ih =>
        intro acc hIn
        rw [List.foldl_cons] at hIn
        rcases ih _ hIn with hStep | hRest
        · unfold pollVisit at hStep
          split at hStep
          · exact Or.inl hStep
          · exact Or.inl hStep
          · exact Or.inl hStep
          · rcases List.mem_append.mp hStep with hOld | hNew
            · exact Or.inl hOld
            · rw [List.mem_singleton.mp hNew]
              exact Or.inr List.mem_cons_self
        · exact Or.inr (List.mem_cons_of_mem c hRest)
  rcases hInv _ _ hVisited with hNone | hIn
  · cases hNone
  · exact hIn

theorem mem_found_of_answers
    {scan : SignalScan}
    {f : Found}
    {b : Bool}
    (hMem : (f, b) ∈ scan.answers) :
    f ∈ scan.found := by
  unfold SignalScan.answers at hMem
  split at hMem
  · rcases List.mem_map.mp hMem with ⟨g, hIn, hEq⟩
    cases hEq
    exact hIn
  · exact (List.of_mem_zip hMem).1

theorem mem_withheld
    {scan : SignalScan}
    {f : Found} :
    f ∈ scan.withheld ↔ (f, false) ∈ scan.answers := by
  unfold SignalScan.withheld
  rw [List.mem_filterMap]
  constructor
  · rintro ⟨⟨g, b⟩, hMem, hMatch⟩
    cases b with
    | true => cases hMatch
    | false =>
        cases hMatch
        exact hMem
  · intro hMem
    exact ⟨(f, false), hMem, by simp⟩

/- A message withheld is counted in the note's line. -/
theorem countedByPoll_of_withheld
    {f : Found}
    (hBaseline : p.baselineEstablished = true)
    (hMem : f ∈ (p.scanSignals env files).withheld) :
    CountedByPoll p env files f.file := by
  refine ⟨List.mem_map_of_mem hMem, ?_⟩
  have hPos := List.length_pos_of_mem hMem
  cases hPlan : (p.scanSignals env files).plan with
  | none =>
      -- With no plan every message found is shown.
      have hAnswer := mem_withheld.mp hMem
      simp [SignalScan.answers, hPlan] at hAnswer
  | some plan =>
      have hCount :
          plan.notShown =
            plan.deliver.countP (fun d => !d) := by
        unfold PeerSensor.scanSignals at hPlan
        dsimp only at hPlan
        split at hPlan
        · cases hPlan
          rfl
        · cases hPlan
      have hLength :=
        notShown_eq_withheld p env files plan hPlan hCount
      have hSome := heldBackNote_isSome hPos
      rcases Option.isSome_iff_exists.mp hSome with
        ⟨note, hNote⟩
      have hLine :
          noteLine (p.scanSignals env files) =
            [{ magnitude := 16, line := note, shows := [] }] := by
        simp [noteLine, hPlan, Plan.note, hLength, hNote]
      refine ⟨{ magnitude := 16, line := note, shows := [] },
        ?_, hNote⟩
      simp [PeerSensor.poll, hBaseline,
        PeerSensor.readSignals, readLines, hLine]

/- What a poll's new seen keys are. -/
theorem mem_seenSignals_poll
    {k : String}
    (hMem : k ∈ (p.poll env files).1.seenSignals) :
    k ∈ p.seenSignals ∨ PollAccounts p env files k ∨
      ∃ o ∈ (p.poll env files).2, k ∈ o.shows := by
  cases hBaseline : p.baselineEstablished with
  | false =>
      simp only [PeerSensor.poll, hBaseline, Bool.not_false,
        if_true] at hMem
      exact Or.inl hMem
  | true =>
      have hLines :
          ∀ o, o ∈ (p.readSignals env files).2 →
            o ∈ (p.poll env files).2 := by
        intro o hIn
        simp [PeerSensor.poll, hBaseline, hIn]
      simp only [PeerSensor.poll, hBaseline, Bool.not_true,
        Bool.false_eq_true, if_false, PeerSensor.readSignals,
        Finset.mem_union, List.mem_toFinset, List.map_append,
        List.mem_append] at hMem
      rcases hMem with hScan | hWithheld | hSurfaced
      · rcases mem_seen_foldl_pollVisit hScan with
          hOld | ⟨⟨room, f⟩, hIn, rfl, hMarks⟩
        · exact Or.inl hOld
        · rcases mem_receiveFiles.mp hIn with
            ⟨hFile, d, hDir, hPath, -⟩
          refine Or.inr (Or.inl ⟨f, hFile, rfl, ?_, ?_⟩)
          · exact List.mem_map.mpr ⟨d, hDir, hPath⟩
          · rcases unread_of_marks hIn hMarks with
              hNone | hUnread
            · exact Or.inl hNone
            · exact Or.inr (Or.inl hUnread)
      · rcases List.mem_map.mp hWithheld with ⟨f, hIn, rfl⟩
        have hFound :=
          mem_found_of_answers (mem_withheld.mp hIn)
        rcases mem_receiveFiles.mp
            (mem_found_scanSignals hFound) with
          ⟨hFile, d, hDir, hPath, -⟩
        refine Or.inr (Or.inl ⟨f.file, hFile, rfl, ?_, ?_⟩)
        · exact List.mem_map.mpr ⟨d, hDir, hPath⟩
        · exact Or.inr (Or.inr
            (countedByPoll_of_withheld hBaseline hIn))
      · have hShows := shows_readSignals p env files
        rw [← hShows] at hSurfaced
        rcases List.mem_flatMap.mp hSurfaced with
          ⟨o, hIn, hKey⟩
        exact Or.inr (Or.inr ⟨o, hLines o hIn, hKey⟩)

end Attend

------------------------------------------------------------
-- Magnitudes
------------------------------------------------------------

namespace Attend

/- Every line that shows a message is loud enough. -/
def Loud
    (lines : List Observation) : Prop :=
  ∀ o ∈ lines, o.shows ≠ [] → 16 ≤ o.magnitude

theorem Loud.append
    {l l' : List Observation}
    (hLeft : Loud l)
    (hRight : Loud l') :
    Loud (l ++ l') := by
  intro o hMem hShows
  rcases List.mem_append.mp hMem with hIn | hIn
  · exact hLeft o hIn hShows
  · exact hRight o hIn hShows

theorem four_le_baseMagnitude
    (room : Room) :
    4 ≤ baseMagnitude room := by
  cases room <;> simp [baseMagnitude]

theorem four_le_engagementBoost
    (n : Nat) :
    4 ≤ engagementBoost n := by
  unfold engagementBoost
  split
  · omega
  · split <;> omega

theorem magnitude_foldl_pushPending
    (env : PollEnv)
    (found : List Found)
    (activity : List (String × List Nat))
    (pending : List PendingMsg)
    (hPending : ∀ m ∈ pending, 16 ≤ m.magnitude) :
    ∀ m ∈ (found.foldl (pushPending env)
      (activity, pending)).2, 16 ≤ m.magnitude := by
  induction found generalizing activity pending with
  | nil => exact hPending
  | cons f rest ih =>
      rw [List.foldl_cons, pushPending]
      apply ih
      intro m hMem
      rcases List.mem_append.mp hMem with hOld | hNew
      · exact hPending m hOld
      · rw [List.mem_singleton.mp hNew]
        exact Nat.mul_le_mul (four_le_baseMagnitude _)
          (four_le_engagementBoost _)

theorem le_foldl_max
    {pending : List PendingMsg}
    {m : PendingMsg}
    (a : Nat)
    (hMem : m ∈ pending) :
    m.magnitude ≤
      pending.foldl (fun b p => max b p.magnitude) a := by
  have hStart :
      ∀ (l : List PendingMsg) (b : Nat),
        b ≤ l.foldl (fun b p => max b p.magnitude) b := by
    intro l
    induction l with
    | nil => exact fun b => le_rfl
    | cons q rest ih =>
        intro b
        exact (le_max_left b q.magnitude).trans (ih _)
  induction pending generalizing a with
  | nil => cases hMem
  | cons q rest ih =>
      rw [List.foldl_cons]
      rcases List.mem_cons.mp hMem with rfl | hIn
      · exact (le_max_right a m.magnitude).trans (hStart _ _)
      · exact ih _ hIn

theorem loud_messageLines
    (env : PollEnv)
    (hintShown : Bool)
    {pending : List PendingMsg}
    (hPending : ∀ m ∈ pending, 16 ≤ m.magnitude) :
    Loud (messageLines env hintShown pending) := by
  induction pending generalizing hintShown with
  | nil =>
      intro o hMem
      cases hMem
  | cons m rest ih =>
      intro o hMem hShows
      rcases List.mem_cons.mp hMem with rfl | hIn
      · exact hPending m List.mem_cons_self
      · exact ih true
          (fun q hQ =>
            hPending q (List.mem_cons_of_mem m hQ))
          o hIn hShows

/- The lines of a poll are loud. -/
theorem loud_poll
    (p : PeerSensor)
    (env : PollEnv)
    (files : List SignalFile) :
    Loud (p.poll env files).2 := by
  unfold PeerSensor.poll
  split
  · intro o hMem
    cases hMem
  · have hPresence :
        Loud
          (env.presence.map
            (fun o =>
              ({ magnitude := o.1, line := o.2, shows := [] } :
                Observation))) := by
      intro o hMem hShows
      rcases List.mem_map.mp hMem with ⟨q, -, rfl⟩
      exact absurd rfl hShows
    refine hPresence.append ?_
    simp only [PeerSensor.readSignals]
    have hPending :=
      magnitude_foldl_pushPending env
        ((p.scanSignals env files).surfaced
          (p.readingIds env) env.cacheLapsed)
        p.peerActivity [] (by intro m hMem; cases hMem)
    refine Loud.append ?_ ?_
    · intro o hMem hShows
      unfold noteLine at hMem
      split at hMem
      · cases hMem
      · rw [List.mem_singleton.mp hMem]
    · split
      · intro o hMem hShows
        rw [List.mem_singleton] at hMem
        subst hMem
        rcases List.exists_mem_of_ne_nil _ hShows with
          ⟨k, hKey⟩
        rcases List.mem_map.mp hKey with ⟨m, hIn, -⟩
        exact (hPending m hIn).trans (le_foldl_max 0 hIn)
      · exact loud_messageLines env _ hPending

end Attend

------------------------------------------------------------
-- Checkpoints And Disclosures
------------------------------------------------------------

namespace Attend

/- A checkpoint adds the sensor's keys and no other. -/
theorem mem_checkpoint
    {s : Session}
    {p : PeerSensor}
    {listable : Bool}
    {k : String}
    (hMem : k ∈ (s.checkpoint p listable).seen) :
    k ∈ s.seen ∨ k ∈ p.seenSignals := by
  unfold Session.checkpoint at hMem
  cases listable with
  | true =>
      simp only [if_true, Finset.mem_filter,
        Finset.mem_union] at hMem
      exact hMem.1
  | false => simpa using hMem

/- The sensor's checkpoint is the shared write. -/
theorem checkpoint_eq_writeMerged
    (s : Session)
    (p : PeerSensor)
    (keys : List String)
    (listable : Bool)
    (hKeys : p.seenSignals = keys.toFinset) :
    s.checkpoint p listable =
      s.writeMerged keys p.baselined listable := by
  unfold Session.checkpoint Session.writeMerged
  rw [hKeys]

/- A disclosure keeps the lines, or shows all of them. -/
theorem disclose_cases
    {run : Run}
    (env : TickEnv)
    (hLoud : Loud run.events) :
    run.disclose env = (run, none) ∨
      ((run.disclose env).1 = { run with events := [] } ∧
        ∀ k, k ∈ run.events.flatMap Observation.shows →
          ∃ d, (run.disclose env).2 = some d ∧
            k ∈ d.shows) := by
  unfold Run.disclose
  split
  · exact Or.inl rfl
  · refine Or.inr ⟨rfl, ?_⟩
    intro k hKey
    rcases List.mem_flatMap.mp hKey with ⟨o, hIn, hShows⟩
    have hLine : 16 ≤ o.magnitude :=
      hLoud o hIn (List.ne_nil_of_mem hShows)
    have hSum : o.magnitude ≤ run.magnitude :=
      List.le_sum_of_mem (List.mem_map_of_mem hIn)
    have hPriority :
        priorityOf run.magnitude = .high ∨
          priorityOf run.magnitude = .medium := by
      unfold priorityOf
      split
      · exact Or.inl rfl
      · rw [if_pos (by omega)]
        exact Or.inr rfl
    rcases hPriority with hHigh | hMedium
    · rw [hHigh]
      exact ⟨_, rfl, hKey⟩
    · rw [hMedium]
      exact ⟨_, rfl, hKey⟩

end Attend
