import AgentWays.Attend.DrainSpec

/-
  No message is lost by the drain.

  Over any run of arrivals and drains, a key is in the
  seen-set only for a message that is accounted for, a
  message waiting before a drain is delivered by it, counted
  in its note or unmarked after it, and no two drains
  deliver the same message.

  Key definitions include:
    * `Attend.DrainTurn`
    * `Attend.TurnAccounts`
    * `Attend.TurnDelivers`
    * `Attend.receivePaths`

  Main declarations:
    * `Attend.accounted_of_mem_seen`
    * `Attend.not_delivered_twice`
    * `Attend.no_message_lost`
-/

------------------------------------------------------------
-- One Turn
------------------------------------------------------------

namespace Attend

/- One turn of a run of arrivals and drains. -/
abbrev DrainTurn :=
  StepMachine.Turn Session Event (Option DrainOut)

/- The turn is a drain that accounts for the message. -/
def TurnAccounts
    (t : DrainTurn)
    (f : SignalFile) : Prop :=
  ∃ env out,
    t.input = .drain env ∧ t.output = some out ∧
      f ∈ t.before.files ∧ (∃ room, Received env room f) ∧
      Accounted env t.before out f

/- The turn is a drain that delivers the message. -/
def TurnDelivers
    (t : DrainTurn)
    (f : SignalFile) : Prop :=
  ∃ out, t.output = some out ∧ Delivered out f

theorem drain_files
    (s : Session)
    (env : DrainEnv) :
    (cmdInboxDrain s env).1.files = s.files := by
  rcases cmdInboxDrain_cases s env with
    ⟨rounds, status, -, hDrain⟩ | ⟨rounds, hDrain⟩
  · rw [hDrain]
  · rw [hDrain]
    exact files_recordDrain _

/- Files are never taken out of the store. -/
theorem mem_files_step
    {s : Session}
    {f : SignalFile}
    (event : Event)
    (hMem : f ∈ s.files) :
    f ∈ (drainMachine.step s event).1.files := by
  cases event with
  | arrive g => exact List.mem_append_left _ hMem
  | drain env =>
      simp only [drainMachine]
      rw [drain_files]
      exact hMem

/- A turn's new keys are accounted for by it. -/
theorem mem_seen_step
    {s : Session}
    {event : Event}
    {k : String}
    (hMem : k ∈ (drainMachine.step s event).1.seen) :
    k ∈ s.seen ∨
      ∃ f, TurnAccounts (drainMachine.turn s event) f ∧
        seenKey f.name = k := by
  cases event with
  | arrive g => exact Or.inl hMem
  | drain env =>
      have hSeen : k ∈ (cmdInboxDrain s env).1.seen := hMem
      rcases cmdInboxDrain_cases s env with
        ⟨rounds, status, -, hDrain⟩ | ⟨rounds, hDrain⟩
      · rw [hDrain] at hSeen
        exact Or.inl hSeen
      · rw [hDrain] at hSeen
        rcases mem_recordDrain hSeen with hOld | hNew
        · exact Or.inl hOld
        · rcases drainPending_accounted hNew with
            ⟨f, hFile, hDir, hKey, hAccounted⟩
          refine Or.inr ⟨f, ⟨env, (cmdInboxDrain s env).2, rfl,
            rfl, hFile, hDir, ?_⟩, hKey⟩
          rw [hDrain]
          exact hAccounted

/- A key whose file is there. -/
def Kept
    (k : String)
    (s : Session) : Prop :=
  k ∈ s.seen ∧ s.Names k

/- Once marked, a message stays marked. -/
theorem kept_step
    {k : String}
    {s : Session}
    (event : Event)
    (hKept : Kept k s) :
    Kept k (drainMachine.step s event).1 := by
  rcases hKept with ⟨hSeen, hNames⟩
  refine ⟨?_, ?_⟩
  · cases event with
    | arrive g => exact hSeen
    | drain env =>
        simp only [drainMachine]
        rcases cmdInboxDrain_cases s env with
          ⟨rounds, status, -, hDrain⟩ | ⟨rounds, hDrain⟩
        · rw [hDrain]
          exact hSeen
        · rw [hDrain]
          exact mem_recordDrain_of_names hNames
            (Or.inl hSeen)
  · rcases List.mem_map.mp hNames with ⟨f, hFile, rfl⟩
    exact List.mem_map_of_mem (mem_files_step event hFile)

theorem not_delivered_nothing
    (status : DrainStatus)
    (f : SignalFile) :
    ¬ Delivered (.nothing status) f := by
  rintro ⟨d, hMem, -⟩
  cases hMem

/- A message is delivered unseen, and is marked after. -/
theorem turnDelivers_step
    {s : Session}
    {event : Event}
    {f : SignalFile}
    (hDelivers :
      TurnDelivers (drainMachine.turn s event) f) :
    seenKey f.name ∉ s.seen ∧
      Kept (seenKey f.name)
        (drainMachine.step s event).1 := by
  rcases hDelivers with ⟨out, hOut, hDelivered⟩
  cases event with
  | arrive g => cases hOut
  | drain env =>
      have hOut' : (cmdInboxDrain s env).2 = out :=
        Option.some.inj hOut
      subst hOut'
      simp only [drainMachine]
      rcases cmdInboxDrain_cases s env with
        ⟨rounds, status, -, hDrain⟩ | ⟨rounds, hDrain⟩
      · rw [hDrain] at hDelivered
        exact absurd hDelivered
          (not_delivered_nothing status f)
      · rw [hDrain] at hDelivered ⊢
        rcases drainPending_delivered hDelivered with
          ⟨hUnseen, hNames, hSeen⟩
        refine ⟨hUnseen, hSeen, ?_⟩
        rw [Session.Names]
        have hFiles :
            (drainPending { s with rounds := rounds }
              env).1.files = s.files :=
          files_recordDrain _
        rw [hFiles]
        exact hNames

/-
  What becomes of a message waiting before a drain, and that
  a warm drain that delivers does deliver it.
-/
theorem pending_drain
    {s : Session}
    {env : DrainEnv}
    {f : SignalFile}
    (hPending : Pending env s f) :
    (Delivered (cmdInboxDrain s env).2 f ∨
        CountedHeldBack env s (cmdInboxDrain s env).2 f ∨
        seenKey f.name ∉ (cmdInboxDrain s env).1.seen) ∧
      ((cmdInboxDrain s env).2.status = .drained →
        s.baselined = true → Delivers env s →
          Delivered (cmdInboxDrain s env).2 f) := by
  rcases cmdInboxDrain_cases s env with
    ⟨rounds, status, hStatus, hDrain⟩ | ⟨rounds, hDrain⟩
  · rw [hDrain]
    constructor
    · rcases hPending with ⟨room, sig, hPending⟩
      exact Or.inr (Or.inr hPending.2.2.2.1)
    · intro hDrained
      exact absurd hDrained hStatus
  · rw [hDrain]
    constructor
    · exact drainPending_pending hPending
    · intro _ hWarm hDelivers
      exact drainPending_delivers hWarm hDelivers hPending

end Attend

------------------------------------------------------------
-- Whole Runs
------------------------------------------------------------

namespace Attend

/- The directories that some drain of a run reads. -/
def receivePaths
    (events : List Event) : List String :=
  events.flatMap
    (fun event =>
      match event with
      | .arrive _ => []
      | .drain env => env.dirs.map ReceiveDir.path)

theorem mem_files_final
    {s : Session}
    {f : SignalFile}
    (events : List Event)
    (hMem : f ∈ s.files) :
    f ∈ (drainMachine.final s events).files := by
  apply StepMachine.invariant_final (m := drainMachine)
    (fun s : Session => f ∈ s.files) (fun _ _ => True)
  · intro s event hFile _
    exact mem_files_step event hFile
  · intro t _
    trivial
  · exact hMem

/- A file there at some turn is there at the end. -/
theorem mem_files_of_mem_trace
    {s : Session}
    {events : List Event}
    {t : DrainTurn}
    {f : SignalFile}
    (hTurn : t ∈ drainMachine.trace s events)
    (hMem : f ∈ t.before.files) :
    f ∈ (drainMachine.final s events).files := by
  induction events generalizing s with
  | nil => cases hTurn
  | cons event rest ih =>
      rcases List.mem_cons.mp hTurn with rfl | hLater
      · exact mem_files_final (event :: rest) hMem
      · exact ih hLater

/- Every new key of a run is accounted for by some drain. -/
theorem accounted_of_mem_seen
    {s : Session}
    {events : List Event}
    {k : String}
    (hMem : k ∈ (drainMachine.final s events).seen) :
    k ∈ s.seen ∨
      ∃ t ∈ drainMachine.trace s events,
        ∃ f, TurnAccounts t f ∧ seenKey f.name = k := by
  induction events generalizing s with
  | nil => exact Or.inl hMem
  | cons event rest ih =>
      rcases ih hMem with hStep | ⟨t, hTurn, hAccounts⟩
      · rcases mem_seen_step hStep with hOld | hNew
        · exact Or.inl hOld
        · exact Or.inr ⟨drainMachine.turn s event,
            List.mem_cons_self, hNew⟩
      · exact Or.inr ⟨t, List.mem_cons_of_mem _ hTurn,
          hAccounts⟩

theorem path_of_turnAccounts
    {s : Session}
    {events : List Event}
    {t : DrainTurn}
    {f : SignalFile}
    (hTurn : t ∈ drainMachine.trace s events)
    (hAccounts : TurnAccounts t f) :
    f.dir ∈ receivePaths events := by
  rcases hAccounts with
    ⟨env, out, hInput, -, -, ⟨room, d, hDir, hPath, -⟩, -⟩
  have hEvent : Event.drain env ∈ events := by
    rw [← hInput]
    exact StepMachine.input_mem_of_mem_trace hTurn
  rw [receivePaths, List.mem_flatMap]
  refine ⟨.drain env, hEvent, ?_⟩
  exact List.mem_map.mpr ⟨d, hDir, hPath⟩

/- No message is delivered by two drains. -/
theorem not_delivered_twice
    {s : Session}
    {events : List Event}
    {earlier middle later : List DrainTurn}
    {a b : DrainTurn}
    (hTrace :
      drainMachine.trace s events =
        earlier ++ a :: (middle ++ b :: later))
    (f : SignalFile) :
    ¬ (TurnDelivers a f ∧ TurnDelivers b f) := by
  rintro ⟨hFirst, hSecond⟩
  have hTurnA :=
    StepMachine.eq_turn_of_mem_trace
      (t := a) (by rw [hTrace]; simp)
  have hTurnB :=
    StepMachine.eq_turn_of_mem_trace
      (t := b) (by rw [hTrace]; simp)
  rw [hTurnA] at hFirst
  rw [hTurnB] at hSecond
  have hKept : Kept (seenKey f.name) a.after := by
    rw [hTurnA]
    exact (turnDelivers_step hFirst).2
  have hStill :=
    StepMachine.invariant_between
      (Kept (seenKey f.name)) (fun _ _ => True)
      (fun _ event hKept _ => kept_step event hKept)
      hTrace (fun _ _ => trivial) hKept
  exact (turnDelivers_step hSecond).1 hStill.1

/-
  Over any run: the seen-set's new keys are accounted for, a
  message of the receive set is marked only if it is, one
  waiting stays unmarked until a drain delivers or counts
  it, and none is delivered by two drains.
-/
theorem no_message_lost
    (start : Session)
    (events : List Event)
    (hDistinct :
      (((drainMachine.final start events).files.filter
        (fun f => decide (f.dir ∈ receivePaths events))).map
          SignalFile.name).Nodup) :
    (∀ k ∈ (drainMachine.final start events).seen,
      k ∈ start.seen ∨
        ∃ t ∈ drainMachine.trace start events,
          ∃ f, TurnAccounts t f ∧ seenKey f.name = k) ∧
    (∀ f ∈ (drainMachine.final start events).files,
      f.dir ∈ receivePaths events →
      seenKey f.name ∈
        (drainMachine.final start events).seen →
      seenKey f.name ∈ start.seen ∨
        ∃ t ∈ drainMachine.trace start events,
          TurnAccounts t f) ∧
    (∀ t ∈ drainMachine.trace start events, ∀ env out,
      t.input = .drain env → t.output = some out →
      ∀ f, Pending env t.before f →
        (Delivered out f ∨
            CountedHeldBack env t.before out f ∨
            seenKey f.name ∉ t.after.seen) ∧
          (out.status = .drained →
            t.before.baselined = true →
            Delivers env t.before → Delivered out f)) ∧
    (∀ earlier a middle b later,
      drainMachine.trace start events =
        earlier ++ a :: (middle ++ b :: later) →
      ∀ f, ¬ (TurnDelivers a f ∧ TurnDelivers b f)) := by
  refine ⟨?_, ?_, ?_, ?_⟩
  · intro k hMem
    exact accounted_of_mem_seen hMem
  · intro f hFile hDir hMem
    rcases accounted_of_mem_seen hMem with
      hOld | ⟨t, hTurn, g, hAccounts, hKey⟩
    · exact Or.inl hOld
    · -- The message with this key is the only one there.
      have hPath := path_of_turnAccounts hTurn hAccounts
      have hThere : g ∈ (drainMachine.final start events).files := by
        rcases hAccounts with ⟨_, _, -, -, hBefore, -⟩
        exact mem_files_of_mem_trace hTurn hBefore
      have hSame : g = f := by
        apply List.inj_on_of_nodup_map hDistinct
        · simp [hThere, hPath]
        · simp [hFile, hDir]
        · exact hKey
      subst hSame
      exact Or.inr ⟨t, hTurn, hAccounts⟩
  · intro t hTurn env out hInput hOutput f hPending
    have hStep := StepMachine.eq_turn_of_mem_trace hTurn
    rw [hInput] at hStep
    have hAfter : t.after = (cmdInboxDrain t.before env).1 := by
      rw [hStep]
      rfl
    have hOut : out = (cmdInboxDrain t.before env).2 := by
      rw [hStep] at hOutput
      exact (Option.some.inj hOutput).symm
    rw [hAfter, hOut]
    exact pending_drain hPending
  · intro earlier a middle b later hTrace f
    exact not_delivered_twice hTrace f

/- A session, its tray and the open room, at some time. -/
def sampleEnv
    (wake cacheLapsed : Bool)
    (now : Nat) : DrainEnv where
  mode := .hook
  wake := wake
  resolved := true
  listening := true
  stopHookActive := false
  roundsWritable := true
  staleNoted := false
  listable := true
  cacheLapsed := cacheLapsed
  now := now
  dirs := [⟨"tray", .project⟩, ⟨"open", .openRoom⟩]
  ids := ["me"]
  marks := ⟨[], []⟩
  window := ⟨some (now - 10), none, []⟩
  displayName := "me"
  compactTime := fun _ => ""
  senderLabel := fun sender _ => sender

def backlogMessage : SignalFile where
  dir := "tray"
  name := "a-1-0.signal"
  content := .text "claude:a|p|/p|before it began\n"
  mtime := 1

def ownMessage : SignalFile where
  dir := "open"
  name := "me-2-0.signal"
  content := .text "claude:me|p|/p|mine\n"
  mtime := 20

def roomMessage : SignalFile where
  dir := "open"
  name := "b-3-0.signal"
  content := .text "claude:b|p|/p|to the room\n"
  mtime := 30

def directMessage : SignalFile where
  dir := "tray"
  name := "b-4-0.signal"
  content := .text "claude:b|p|/p|to:me|wake up\n"
  mtime := 40

def emptySession : Session where
  files := []
  seen := ∅
  baselined := false
  rounds := 0

/-
  A cold drain holds the backlog back, a wake drain leaves
  the room's message, and a lapsed cache the direct one.
-/
def sampleEvents : List Event :=
  [.arrive backlogMessage, .arrive ownMessage,
    .drain (sampleEnv true false 25), .arrive roomMessage,
    .drain (sampleEnv true false 35), .arrive directMessage,
    .drain (sampleEnv true true 45),
    .drain (sampleEnv true false 46),
    .drain (sampleEnv false false 47)]

theorem sampleEvents_accounted :
    (((drainMachine.final emptySession sampleEvents).files.filter
      (fun f =>
        decide (f.dir ∈ receivePaths sampleEvents))).map
          SignalFile.name).Nodup ∧
      ∃ t ∈ drainMachine.trace emptySession sampleEvents,
        TurnAccounts t directMessage := by
  have hDistinct :
      (((drainMachine.final emptySession
        sampleEvents).files.filter
          (fun f =>
            decide (f.dir ∈ receivePaths sampleEvents))).map
              SignalFile.name).Nodup := by
    decide
  refine ⟨hDistinct, ?_⟩
  rcases no_message_lost emptySession sampleEvents hDistinct
    with ⟨-, hMarked, -, -⟩
  rcases hMarked directMessage (by decide)
    (by decide) (by decide) with
      hOld | hAccounted
  · cases hOld
  · exact hAccounted

end Attend
