import AgentWays.Attend.TickSpec
import AgentWays.Attend.DrainRuns

/-
  Delivery at least once, across the drain and `attend run`.

  A key of the seen-set is that of a message some turn has
  printed, of a file that is not for the session to read or
  was counted in a note, or of a message that the run still
  holds in an undisclosed line. A kill while a line is held
  is what loses a message.

  Key definitions include:
    * `Attend.Prints`
    * `Attend.Excuses`
    * `Attend.Owed`
    * `Attend.Tracked`
    * `Attend.KillsSettled`

  Main declarations:
    * `Attend.tracked_step`
    * `Attend.tracked_final`
    * `Attend.at_least_once`
    * `Attend.at_least_once_killed`
-/

------------------------------------------------------------
-- Turns
------------------------------------------------------------

namespace Attend

/- One turn of a session with its run. -/
abbrev RunTurn :=
  StepMachine.Turn World RunEvent RunOut

/- The turn prints the message of the key. -/
def Prints
    (t : RunTurn)
    (k : String) : Prop :=
  match t.output with
  | .nothing => False
  | .drained out => k ∈ out.delivered.map Drained.key
  | .disclosed d => k ∈ d.shows

/- A drain that finds it unread, or counts it in its note. -/
def DrainExcuses
    (t : RunTurn)
    (f : SignalFile) : Prop :=
  ∃ env out,
    t.input = .drain env ∧ t.output = .drained out ∧
      (unreadBy env.marks env.ids env.dirs f = true ∨
        CountedHeldBack env t.before.session out f)

/- A poll that does. -/
def PollExcuses
    (t : RunTurn)
    (f : SignalFile) : Prop :=
  ∃ env run,
    t.input = .tick env ∧ t.before.run = some run ∧
      run.phase = .imported ∧
      (unreadBy env.poll.marks
          (run.sensor.readingIds env.poll) env.poll.dirs f =
            true ∨
        CountedByPoll run.sensor env.poll
          t.before.session.files f)

/-
  The turn finds the message to be the session's own, hidden
  or another session's, or counts it in a held-back note.
-/
def Excuses
    (t : RunTurn)
    (f : SignalFile) : Prop :=
  DrainExcuses t f ∨ PollExcuses t f

/- The directories an event reads. -/
def RunEvent.paths : RunEvent → List String
| .drain env => env.dirs.map ReceiveDir.path
| .tick env => env.poll.dirs.map ReceiveDir.path
| _ => []

/- The turn accounts for a key of the seen-set. -/
def Accounts
    (t : RunTurn)
    (k : String) : Prop :=
  Prints t k ∨
    ∃ f ∈ t.before.session.files,
      seenKey f.name = k ∧ f.dir ∈ t.input.paths ∧
        (signalOf f = none ∨ Excuses t f)

end Attend

------------------------------------------------------------
-- Held Lines
------------------------------------------------------------

namespace Attend

/- A line the run holds shows the message. -/
def Run.Shows
    (run : Run)
    (k : String) : Prop :=
  k ∈ run.events.flatMap Observation.shows

/- The session's run holds it. -/
def World.Holds
    (w : World)
    (k : String) : Prop :=
  ∃ run, w.run = some run ∧ run.Shows k

/- Recorded as seen, and held in an undisclosed line. -/
def Owed
    (w : World)
    (k : String) : Prop :=
  k ∈ w.session.seen ∧ w.Holds k

/- Every seen key is accounted for or still held. -/
structure Tracked
    (acc : String → Prop)
    (w : World) : Prop where
  seen : ∀ k ∈ w.session.seen, acc k ∨ w.Holds k
  sensor :
    ∀ run, w.run = some run →
      ∀ k ∈ run.sensor.seenSignals, acc k ∨ run.Shows k
  loud : ∀ run, w.run = some run → Loud run.events

theorem Tracked.mono
    {acc acc' : String → Prop}
    {w : World}
    (hTracked : Tracked acc w)
    (hMono : ∀ k, acc k → acc' k) :
    Tracked acc' w where
  seen := fun k hMem =>
    (hTracked.seen k hMem).imp_left (hMono k)
  sensor := fun run hRun k hMem =>
    (hTracked.sensor run hRun k hMem).imp_left (hMono k)
  loud := hTracked.loud

/- With no run every seen key is accounted for. -/
theorem Tracked.acc_of_no_run
    {acc : String → Prop}
    {w : World}
    {k : String}
    (hTracked : Tracked acc w)
    (hNone : w.run = none)
    (hMem : k ∈ w.session.seen) :
    acc k := by
  rcases hTracked.seen k hMem with hAcc | ⟨run, hRun, -⟩
  · exact hAcc
  · rw [hNone] at hRun
    cases hRun

/- A tracked world whose run is replaced. -/
theorem Tracked.of_run
    {acc : String → Prop}
    {w : World}
    {run : Run}
    (hRun : w.run = some run)
    (hSeen : ∀ k ∈ w.session.seen, acc k ∨ run.Shows k)
    (hSensor :
      ∀ k ∈ run.sensor.seenSignals, acc k ∨ run.Shows k)
    (hLoud : Loud run.events) :
    Tracked acc w where
  seen := by
    intro k hMem
    rcases hSeen k hMem with hAcc | hShows
    · exact Or.inl hAcc
    · exact Or.inr ⟨run, hRun, hShows⟩
  sensor := by
    intro run' hRun' k hMem
    rw [hRun] at hRun'
    cases hRun'
    exact hSensor k hMem
  loud := by
    intro run' hRun'
    rw [hRun] at hRun'
    cases hRun'
    exact hLoud

theorem Tracked.seen_run
    {acc : String → Prop}
    {w : World}
    {run : Run}
    {k : String}
    (hTracked : Tracked acc w)
    (hRun : w.run = some run)
    (hMem : k ∈ w.session.seen) :
    acc k ∨ run.Shows k := by
  rcases hTracked.seen k hMem with
    hAcc | ⟨run', hRun', hShows⟩
  · exact Or.inl hAcc
  · rw [hRun] at hRun'
    cases hRun'
    exact Or.inr hShows

end Attend

------------------------------------------------------------
-- The Drain's Turn
------------------------------------------------------------

namespace Attend

/- Every reason a drain has accounts for the key. -/
theorem accounts_of_accounted
    {w : World}
    {env : DrainEnv}
    {f : SignalFile}
    (hFile : f ∈ w.session.files)
    (hDir : ∃ room, Received env room f)
    (hAccounted :
      Accounted env w.session (cmdInboxDrain w.session env).2
        f) :
    Accounts (runMachine.turn w (.drain env))
      (seenKey f.name) := by
  have hPath : f.dir ∈ (RunEvent.drain env).paths := by
    rcases hDir with ⟨room, d, hMem, hPath, -⟩
    exact List.mem_map.mpr ⟨d, hMem, hPath⟩
  have hUnread :
      unreadBy env.marks env.ids env.dirs f = true →
        Accounts (runMachine.turn w (.drain env))
          (seenKey f.name) := by
    intro hUnread
    exact Or.inr ⟨f, hFile, rfl, hPath, Or.inr
      (Or.inl ⟨env, _, rfl, rfl, Or.inl hUnread⟩)⟩
  rcases hAccounted with
    ⟨sig, hSig, hOwn⟩ | ⟨sig, hSig, hTomb⟩ |
      ⟨sig, room, hSig, ⟨d, hMem, hDirPath, rfl⟩, hTray,
        hReads⟩ | ⟨hLarge, -⟩ | ⟨d, hDelivered, hKey⟩ |
      hCounted
  · apply hUnread
    simp [unreadBy, signalOf_eq_some.mpr hSig, hOwn]
  · apply hUnread
    simp [unreadBy, signalOf_eq_some.mpr hSig, hTomb]
  · apply hUnread
    simp only [unreadBy, signalOf_eq_some.mpr hSig,
      Bool.or_eq_true, List.any_eq_true]
    exact Or.inr ⟨d, hMem, by simp [hDirPath, hTray, hReads]⟩
  · refine Or.inr ⟨f, hFile, rfl, hPath, Or.inl ?_⟩
    simp [signalOf, hLarge]
  · exact Or.inl (List.mem_map.mpr ⟨d, hDelivered, hKey⟩)
  · exact Or.inr ⟨f, hFile, rfl, hPath, Or.inr
      (Or.inl ⟨env, _, rfl, rfl, Or.inr hCounted⟩)⟩

theorem mem_seen_drain
    {w : World}
    {env : DrainEnv}
    {k : String}
    (hMem : k ∈ (cmdInboxDrain w.session env).1.seen) :
    k ∈ w.session.seen ∨
      Accounts (runMachine.turn w (.drain env)) k := by
  have hStep :
      k ∈ (drainMachine.step w.session (.drain env)).1.seen :=
    hMem
  rcases mem_seen_step hStep with
    hOld | ⟨f, ⟨env', out, hInput, hOutput, hFile, hDir,
      hAccounted⟩, rfl⟩
  · exact Or.inl hOld
  · cases hInput
    cases hOutput
    exact Or.inr (accounts_of_accounted hFile hDir hAccounted)

end Attend

------------------------------------------------------------
-- The Tick's Turn
------------------------------------------------------------

namespace Attend

variable {acc : String → Prop} {w : World} {run : Run}

theorem step_tick
    (env : TickEnv)
    (hRun : w.run = some run) :
    (runMachine.step w (.tick env)).1 = (tickStep w run env).1 ∧
      ∀ d, (tickStep w run env).2 = some d →
        (runMachine.step w (.tick env)).2 = .disclosed d := by
  simp only [runMachine, hRun]
  rcases tickStep w run env with ⟨w', _ | d⟩
  · exact ⟨rfl, by intro d hSome; cases hSome⟩
  · refine ⟨rfl, ?_⟩
    intro d' hSome
    cases hSome
    rfl

/- The marks imported are those of the seen-set. -/
theorem tracked_import
    (hTracked : Tracked acc w)
    (hRun : w.run = some run) :
    Tracked acc { w with run := some (importMarks w run) } := by
  refine Tracked.of_run rfl ?_ ?_ (hTracked.loud run hRun)
  · intro k hMem
    have hHeld := hTracked.seen_run hRun hMem
    exact hHeld
  · intro k hMem
    simp only [importMarks, PeerSensor.importState,
      Finset.mem_union] at hMem
    rcases hMem with hOld | hNew
    · have hHeld := hTracked.sensor run hRun k hOld
      exact hHeld
    · have hHeld := hTracked.seen_run hRun hNew
      exact hHeld

/- A poll's new keys are accounted for, or held from now. -/
theorem tracked_poll
    {env : TickEnv}
    (hTracked : Tracked acc w)
    (hRun : w.run = some run)
    (hPhase : run.phase = .imported) :
    Tracked
      (fun k =>
        acc k ∨ Accounts (runMachine.turn w (.tick env)) k)
      { w with run := some (pollPeers w run env) } := by
  have hKeeps :
      ∀ k, run.Shows k → (pollPeers w run env).Shows k := by
    intro k hShows
    simp only [Run.Shows, pollPeers, List.flatMap_append]
    exact List.mem_append_left _ hShows
  have hLines :
      ∀ o ∈ (run.sensor.poll env.poll w.session.files).2,
        ∀ k ∈ o.shows, (pollPeers w run env).Shows k := by
    intro o hIn k hKey
    simp only [Run.Shows, pollPeers, List.flatMap_append]
    exact List.mem_append_right _
      (List.mem_flatMap.mpr ⟨o, hIn, hKey⟩)
  refine Tracked.of_run rfl ?_ ?_ ?_
  · intro k hMem
    rcases hTracked.seen_run hRun hMem with hAcc | hShows
    · exact Or.inl (Or.inl hAcc)
    · exact Or.inr (hKeeps k hShows)
  · intro k hMem
    rcases mem_seenSignals_poll hMem with
      hOld | ⟨f, hFile, rfl, hPath, hWhy⟩ | ⟨o, hIn, hKey⟩
    · rcases hTracked.sensor run hRun k hOld with
        hAcc | hShows
      · exact Or.inl (Or.inl hAcc)
      · exact Or.inr (hKeeps k hShows)
    · refine Or.inl (Or.inr (Or.inr
        ⟨f, hFile, rfl, hPath, ?_⟩))
      rcases hWhy with hNone | hUnread | hCounted
      · exact Or.inl hNone
      · exact Or.inr (Or.inr ⟨env, run, rfl, hRun, hPhase,
          Or.inl hUnread⟩)
      · exact Or.inr (Or.inr ⟨env, run, rfl, hRun, hPhase,
          Or.inr hCounted⟩)
    · exact Or.inr (hLines o hIn k hKey)
  · exact (hTracked.loud run hRun).append (loud_poll _ _ _)

/- A checkpoint records what the sensor has seen. -/
theorem tracked_checkpoint
    (run' : Run)
    (env : TickEnv)
    (hTracked : Tracked acc w)
    (hRun : w.run = some run)
    (hSensor : run'.sensor = run.sensor)
    (hEvents : run'.events = run.events) :
    Tracked acc
      { w.checkpoint run env with run := some run' } := by
  have hShows : ∀ k, run.Shows k → run'.Shows k := by
    intro k hKey
    rw [Run.Shows, hEvents]
    exact hKey
  refine Tracked.of_run rfl ?_ ?_ ?_
  · intro k hMem
    rcases mem_checkpoint hMem with hOld | hNew
    · exact (hTracked.seen_run hRun hOld).imp_right (hShows k)
    · exact (hTracked.sensor run hRun k hNew).imp_right
        (hShows k)
  · intro k hMem
    rw [hSensor] at hMem
    exact (hTracked.sensor run hRun k hMem).imp_right
      (hShows k)
  · rw [hEvents]
    exact hTracked.loud run hRun

/- A step that only moves the run on. -/
theorem tracked_move
    (run' : Run)
    (hTracked : Tracked acc w)
    (hRun : w.run = some run)
    (hSensor : run'.sensor = run.sensor)
    (hEvents : run'.events = run.events) :
    Tracked acc { w with run := some run' } := by
  refine Tracked.of_run rfl ?_ ?_ ?_
  · intro k hMem
    rw [Run.Shows, hEvents]
    exact hTracked.seen_run hRun hMem
  · intro k hMem
    rw [hSensor] at hMem
    rw [Run.Shows, hEvents]
    exact hTracked.sensor run hRun k hMem
  · rw [hEvents]
    exact hTracked.loud run hRun

/- What a disclosure lets go of, it prints. -/
theorem tracked_disclose
    {env : TickEnv}
    (hTracked : Tracked acc w)
    (hRun : w.run = some run)
    (hPhase : run.phase = .recorded) :
    Tracked
      (fun k =>
        acc k ∨ Accounts (runMachine.turn w (.tick env)) k)
      { w with
        run :=
          some
            { (run.disclose env).1 with
              phase := .disclosed } } := by
  rcases disclose_cases env (hTracked.loud run hRun) with
    hKept | ⟨hGone, hPrinted⟩
  · rw [hKept]
    exact (tracked_move { run with phase := .disclosed }
      hTracked hRun rfl rfl).mono
        (fun k hAcc => Or.inl hAcc)
  · have hShows :
        ∀ k, acc k ∨ run.Shows k →
          acc k ∨
            Accounts (runMachine.turn w (.tick env)) k := by
      rintro k (hAcc | hKey)
      · exact Or.inl hAcc
      · rcases hPrinted k hKey with ⟨d, hOut, hShown⟩
        refine Or.inr (Or.inl ?_)
        have hStep := (step_tick env hRun).2 d (by
          rw [tickStep, hPhase]
          exact hOut)
        simp only [Prints, StepMachine.turn, hStep]
        exact hShown
    refine Tracked.of_run rfl ?_ ?_ ?_
    · intro k hMem
      exact Or.inl (hShows k (hTracked.seen_run hRun hMem))
    · intro k hMem
      rw [hGone] at hMem
      exact Or.inl
        (hShows k (hTracked.sensor run hRun k hMem))
    · rw [hGone]
      intro o hMem
      cases hMem

theorem tracked_tick
    {env : TickEnv}
    (hTracked : Tracked acc w)
    (hRun : w.run = some run) :
    Tracked
      (fun k =>
        acc k ∨ Accounts (runMachine.turn w (.tick env)) k)
      (tickStep w run env).1 := by
  have hWeaken :
      ∀ k, acc k →
        acc k ∨
          Accounts (runMachine.turn w (.tick env)) k :=
    fun _ hAcc => Or.inl hAcc
  unfold tickStep
  split
  · exact (tracked_import hTracked hRun).mono hWeaken
  · rename_i hPhase
    exact tracked_poll hTracked hRun hPhase
  · split
    · exact (tracked_checkpoint
        { run with
          checkpointedOnce := true
          phase := .recorded }
        env hTracked hRun rfl rfl).mono hWeaken
    · exact (tracked_move { run with phase := .recorded }
        hTracked hRun rfl rfl).mono hWeaken
  · rename_i hPhase
    exact tracked_disclose hTracked hRun hPhase
  · dsimp only
    split
    · exact (tracked_checkpoint { run with phase := .idle }
        env hTracked hRun rfl rfl).mono hWeaken
    · exact (tracked_move { run with phase := .idle }
        hTracked hRun rfl rfl).mono hWeaken

end Attend

------------------------------------------------------------
-- Whole Runs
------------------------------------------------------------

namespace Attend

variable {acc : String → Prop} {w : World}

/- One event keeps every seen key accounted for or held. -/
theorem tracked_step
    {event : RunEvent}
    (hTracked : Tracked acc w)
    (hKill : event = .kill → ∀ k, Owed w k → acc k) :
    Tracked
      (fun k => acc k ∨ Accounts (runMachine.turn w event) k)
      (runMachine.step w event).1 := by
  have hSame :=
    hTracked.mono
      (fun k (hAcc : acc k) =>
        (Or.inl hAcc :
          acc k ∨ Accounts (runMachine.turn w event) k))
  cases event with
  | arrive f => exact ⟨hSame.seen, hSame.sensor, hSame.loud⟩
  | drain env =>
      refine ⟨?_, hSame.sensor, hSame.loud⟩
      intro k hMem
      rcases mem_seen_drain hMem with hOld | hNew
      · exact hSame.seen k hOld
      · exact Or.inl (Or.inr hNew)
  | start own reopens =>
      cases hRun : w.run with
      | some run =>
          have hStep :
              (runMachine.step w (.start own reopens)).1 =
                w := by
            simp only [runMachine, hRun]
          rw [hStep]
          exact hSame
      | none =>
          have hAcc :
              ∀ k ∈ w.session.seen,
                acc k ∨ Accounts (runMachine.turn w
                  (.start own reopens)) k := by
            intro k hMem
            exact Or.inl (hTracked.acc_of_no_run hRun hMem)
          simp only [runMachine, hRun]
          refine Tracked.of_run rfl ?_ ?_ ?_
          · intro k hMem
            exact Or.inl (hAcc k hMem)
          · intro k hMem
            simp only [PeerSensor.importState, PeerSensor.new,
              Finset.mem_union] at hMem
            rcases hMem with hNone | hSeen
            · cases hNone
            · exact Or.inl (hAcc k hSeen)
          · intro o hMem
            cases hMem
  | tick env =>
      cases hRun : w.run with
      | none =>
          have hStep :
              (runMachine.step w (.tick env)).1 = w := by
            simp only [runMachine, hRun]
          rw [hStep]
          exact hSame
      | some run =>
          rw [(step_tick env hRun).1]
          exact tracked_tick hTracked hRun
  | kill =>
      refine ⟨?_, ?_, ?_⟩
      · intro k hMem
        rcases hTracked.seen k hMem with hAcc | hHeld
        · exact Or.inl (Or.inl hAcc)
        · exact Or.inl (Or.inl (hKill rfl k ⟨hMem, hHeld⟩))
      · intro run hRun
        cases hRun
      · intro run hRun
        cases hRun

/- Over a whole run, whose kills lose nothing. -/
theorem tracked_final
    (events : List RunEvent)
    (hTracked : Tracked acc w)
    (hKills :
      ∀ n, events[n]? = some .kill →
        ∀ k, Owed (runMachine.final w (events.take n)) k →
          acc k ∨
            ∃ t ∈ runMachine.trace w (events.take n),
              Accounts t k) :
    Tracked
      (fun k =>
        acc k ∨
          ∃ t ∈ runMachine.trace w events, Accounts t k)
      (runMachine.final w events) := by
  induction events generalizing acc w with
  | nil => exact hTracked.mono (fun k hAcc => Or.inl hAcc)
  | cons event rest ih =>
      have hStep :
          Tracked
            (fun k =>
              acc k ∨ Accounts (runMachine.turn w event) k)
            (runMachine.step w event).1 := by
        apply tracked_step hTracked
        intro hKill k hOwed
        rcases hKills 0 (by simp [hKill]) k hOwed with
          hAcc | ⟨t, hMem, -⟩
        · exact hAcc
        · cases hMem
      refine (ih hStep ?_).mono ?_
      · intro n hGet k hOwed
        rcases hKills (n + 1) (by simpa using hGet) k hOwed with
          hAcc | ⟨t, hMem, hAccounts⟩
        · exact Or.inl (Or.inl hAcc)
        · rcases List.mem_cons.mp hMem with rfl | hLater
          · exact Or.inl (Or.inr hAccounts)
          · exact Or.inr ⟨t, hLater, hAccounts⟩
      · rintro k ((hAcc | hAccounts) | ⟨t, hMem, hAccounts⟩)
        · exact Or.inl hAcc
        · exact Or.inr ⟨_, List.mem_cons_self, hAccounts⟩
        · exact Or.inr ⟨t, List.mem_cons_of_mem _ hMem,
            hAccounts⟩

/-
  Every kill of the run finds printed whatever message it
  has recorded and still holds.
-/
def KillsSettled
    (w : World)
    (events : List RunEvent) : Prop :=
  ∀ n, events[n]? = some .kill →
    ∀ k, Owed (runMachine.final w (events.take n)) k →
      ∃ t ∈ runMachine.trace w (events.take n), Prints t k

/- Files are never taken out of the store. -/
theorem mem_files_runStep
    {f : SignalFile}
    (event : RunEvent)
    (hMem : f ∈ w.session.files) :
    f ∈ (runMachine.step w event).1.session.files := by
  cases event with
  | arrive g => exact List.mem_append_left _ hMem
  | drain env =>
      simp only [runMachine]
      rw [drain_files]
      exact hMem
  | start own reopens =>
      simp only [runMachine]
      split <;> exact hMem
  | tick env =>
      cases hRun : w.run with
      | none =>
          simp only [runMachine, hRun]
          exact hMem
      | some run =>
          rw [(step_tick env hRun).1]
          unfold tickStep
          split
          · exact hMem
          · exact hMem
          · split <;> exact hMem
          · exact hMem
          · dsimp only
            split <;> exact hMem
  | kill => exact hMem

theorem mem_files_runFinal
    {f : SignalFile}
    (events : List RunEvent)
    (hMem : f ∈ w.session.files) :
    f ∈ (runMachine.final w events).session.files := by
  apply StepMachine.invariant_final (m := runMachine)
    (fun w : World => f ∈ w.session.files) (fun _ _ => True)
  · intro w event hFile _
    exact mem_files_runStep event hFile
  · intro t _
    trivial
  · exact hMem

/- A file there at some turn is there at the end. -/
theorem mem_files_of_mem_runTrace
    {events : List RunEvent}
    {t : RunTurn}
    {f : SignalFile}
    (hTurn : t ∈ runMachine.trace w events)
    (hMem : f ∈ t.before.session.files) :
    f ∈ (runMachine.final w events).session.files := by
  induction events generalizing w with
  | nil => cases hTurn
  | cons event rest ih =>
      rcases List.mem_cons.mp hTurn with rfl | hLater
      · exact mem_files_runFinal (event :: rest) hMem
      · exact ih hLater

/-
  Over any run of arrivals, drains, starts, tick steps and
  kills: where every kill finds printed what it makes the
  run drop, and no message recorded as seen is still held, a
  message recorded as seen has been printed, or is the
  session's own, hidden, another session's, or counted in a
  held-back note.
-/
theorem at_least_once
    (start : World)
    (events : List RunEvent)
    (hStart : start.run = none)
    (hDistinct :
      (((runMachine.final start events).session.files.filter
        (fun f =>
          decide (f.dir ∈ events.flatMap RunEvent.paths))).map
            SignalFile.name).Nodup)
    (hKills : KillsSettled start events)
    (hNow :
      ∀ k, ¬ Owed (runMachine.final start events) k) :
    ∀ f ∈ (runMachine.final start events).session.files,
      f.dir ∈ events.flatMap RunEvent.paths →
      (signalOf f).isSome = true →
      seenKey f.name ∈
        (runMachine.final start events).session.seen →
      seenKey f.name ∈ start.session.seen ∨
        ∃ t ∈ runMachine.trace start events,
          Prints t (seenKey f.name) ∨ Excuses t f := by
  intro f hFile hDir hSignal hSeen
  have hTracked :
      Tracked (fun k => k ∈ start.session.seen) start := by
    refine ⟨fun k hMem => Or.inl hMem, ?_, ?_⟩
    · intro run hRun
      rw [hStart] at hRun
      cases hRun
    · intro run hRun
      rw [hStart] at hRun
      cases hRun
  have hFinal := tracked_final events hTracked (by
    intro n hGet k hOwed
    rcases hKills n hGet k hOwed with ⟨t, hMem, hPrints⟩
    exact Or.inr ⟨t, hMem, Or.inl hPrints⟩)
  rcases hFinal.seen _ hSeen with
    (hOld | ⟨t, hTurn, hAccounts⟩) | hHeld
  · exact Or.inl hOld
  · refine Or.inr ⟨t, hTurn, ?_⟩
    rcases hAccounts with
      hPrints | ⟨g, hBefore, hKey, hPath, hWhy⟩
    · exact Or.inl hPrints
    · -- The message with this key is the only one there.
      have hThere := mem_files_of_mem_runTrace hTurn hBefore
      have hPaths :
          g.dir ∈ events.flatMap RunEvent.paths :=
        List.mem_flatMap.mpr
          ⟨t.input, StepMachine.input_mem_of_mem_trace hTurn,
            hPath⟩
      have hSame : g = f := by
        apply List.inj_on_of_nodup_map hDistinct
        · exact List.mem_filter.mpr
            ⟨hThere, decide_eq_true hPaths⟩
        · exact List.mem_filter.mpr
            ⟨hFile, decide_eq_true hDir⟩
        · exact hKey
      subst hSame
      rcases hWhy with hNone | hExcuses
      · rw [hNone] at hSignal
        cases hSignal
      · exact Or.inr hExcuses
  · exact absurd ⟨hSeen, hHeld⟩ (hNow _)

/- A session with no state and no run. -/
def emptyWorld : World where
  session := emptySession
  hint := false
  run := none

/- One step of a tick, with both gates open. -/
def sampleTick : RunEvent :=
  .tick
    { poll := pollOf (sampleEnv false false 45)
      gateLapsed := false
      canDisclose := true
      intervalPassed := false
      listable := true }

/-
  A message arrives, and a run starts and ticks: the second
  tick goes on for some of its steps.
-/
def tickedFor
    (steps : Nat) : List RunEvent :=
  [.arrive directMessage, .start (some "me") false] ++
    List.replicate (5 + steps) sampleTick

theorem tickedFor_ne_kill
    (steps : Nat) :
    ∀ event ∈ tickedFor steps, event ≠ .kill := by
  intro event hMem hKill
  subst hKill
  rcases List.mem_append.mp hMem with hFirst | hTick
  · simp at hFirst
  · have hEq := List.eq_of_mem_replicate hTick
    cases hEq

/- The lines held before the kill. -/
def heldShows
    (w : World) : List String :=
  ((w.run.map Run.events).getD []).flatMap Observation.shows

theorem holds_iff
    {k : String} :
    w.Holds k ↔ k ∈ heldShows w := by
  unfold World.Holds heldShows Run.Shows
  cases w.run with
  | none => simp
  | some run => simp

theorem owed_of_heldShows
    {k : String}
    (hNone : heldShows w = []) :
    ¬ Owed w k := by
  rintro ⟨-, hHeld⟩
  rw [holds_iff, hNone] at hHeld
  cases hHeld

/- A run killed once, with nothing held. -/
theorem killsSettled_append
    {events : List RunEvent}
    (hNoKill : ∀ event ∈ events, event ≠ .kill)
    (hNone : heldShows (runMachine.final w events) = []) :
    KillsSettled w (events ++ [.kill]) := by
  intro n hGet k hOwed
  rcases Nat.lt_or_ge n events.length with hLt | hGe
  · rw [List.getElem?_append_left hLt] at hGet
    exact absurd rfl
      (hNoKill .kill (List.mem_of_getElem? hGet))
  · have hLast : n = events.length := by
      have hLength := (List.getElem?_eq_some_iff.mp hGet).1
      simp only [List.length_append, List.length_cons,
        List.length_nil] at hLength
      omega
    rw [hLast, List.take_left] at hOwed
    exact absurd hOwed (owed_of_heldShows hNone)

/- Killed after its disclosure, it has printed the message. -/
theorem at_least_once_disclosed :
    ∃ t ∈ runMachine.trace emptyWorld
        (tickedFor 4 ++ [.kill]),
      Prints t (seenKey directMessage.name) ∨
        Excuses t directMessage := by
  have hKills :
      KillsSettled emptyWorld (tickedFor 4 ++ [.kill]) :=
    killsSettled_append (tickedFor_ne_kill 4)
      (by decide)
  rcases at_least_once emptyWorld (tickedFor 4 ++ [.kill])
      rfl (by decide) hKills
      (fun k => owed_of_heldShows (by decide))
      directMessage (by decide) (by decide)
      (by decide) (by decide) with
    hOld | hPrinted
  · cases hOld
  · exact hPrinted

/- The keys a turn prints. -/
def printedBy
    (t : RunTurn) : List String :=
  match t.output with
  | .nothing => []
  | .drained out => out.delivered.map Drained.key
  | .disclosed d => d.shows

/- Whether a turn without drains may excuse the file. -/
def mayExcuse
    (t : RunTurn)
    (f : SignalFile) : Bool :=
  match t.input, t.before.run with
  | .drain _, _ => true
  | .tick env, some run =>
      unreadBy env.poll.marks
          (run.sensor.readingIds env.poll) env.poll.dirs f ||
        decide
          (f ∈ (run.sensor.scanSignals env.poll
            t.before.session.files).withheld.map Found.file)
  | _, _ => false

theorem mem_printedBy
    {t : RunTurn}
    {k : String}
    (hPrints : Prints t k) :
    k ∈ printedBy t := by
  unfold Prints at hPrints
  unfold printedBy
  split at hPrints <;> simp_all

theorem mayExcuse_of_excuses
    {t : RunTurn}
    {f : SignalFile}
    (hExcuses : Excuses t f) :
    mayExcuse t f = true := by
  rcases hExcuses with
    ⟨env, out, hInput, -, -⟩ | ⟨env, run, hInput, hRun, -, hWhy⟩
  · simp [mayExcuse, hInput]
  · simp only [mayExcuse, hInput, hRun, Bool.or_eq_true,
      decide_eq_true_eq]
    rcases hWhy with hUnread | ⟨hWithheld, -⟩
    · exact Or.inl hUnread
    · exact Or.inr hWithheld

/-
  Killed between its checkpoint and its disclosure, a run
  has recorded a message that nothing prints.
-/
theorem at_least_once_killed :
    directMessage ∈
        (runMachine.final emptyWorld
          (tickedFor 3 ++ [.kill])).session.files ∧
      (signalOf directMessage).isSome = true ∧
      seenKey directMessage.name ∈
        (runMachine.final emptyWorld
          (tickedFor 3 ++ [.kill])).session.seen ∧
      seenKey directMessage.name ∉ emptyWorld.session.seen ∧
      ∀ t ∈ runMachine.trace emptyWorld
          (tickedFor 3 ++ [.kill]),
        ¬ (Prints t (seenKey directMessage.name) ∨
          Excuses t directMessage) := by
  refine ⟨by decide, by decide,
    by decide, by decide, ?_⟩
  intro t hMem
  have hNone :
      ∀ t ∈ runMachine.trace emptyWorld
          (tickedFor 3 ++ [.kill]),
        seenKey directMessage.name ∉ printedBy t ∧
          mayExcuse t directMessage = false := by
    decide
  rcases hNone t hMem with ⟨hUnprinted, hUnexcused⟩
  rintro (hPrints | hExcuses)
  · exact hUnprinted (mem_printedBy hPrints)
  · rw [mayExcuse_of_excuses hExcuses] at hUnexcused
    cases hUnexcused

end Attend
