import AgentWays.Attend.Peers
import AgentWays.Attend.PlanSpec
import AgentWays.Attend.DrainRuns

/-
  What a poll of the peers sensor finds, marks and shows,
  and its cold start beside the drain's.

  The scan marks a file as it goes, so a later file of the
  same name is passed over; where no name is both marked and
  found, what it finds is what the drain finds.

  Key definitions include:
    * `Attend.Verdict.marks`
    * `Attend.KeysApart`
    * `Attend.SameReading`

  Main declarations:
    * `Attend.pollVerdict_cases`
    * `Attend.found_scanSignals`
    * `Attend.shows_readSignals`
    * `Attend.cold_conduits`
-/

------------------------------------------------------------
-- Verdicts
------------------------------------------------------------

namespace Attend

open RustText

/- A file whose key is recorded as it is visited. -/
def Verdict.marks : Verdict → Bool
| .skipped _ => true
| .marked => true
| _ => false

/- The signal of a message found. -/
def Verdict.sig? : Verdict → Option ParsedSignal
| .found sig => some sig
| _ => none

variable {env : DrainEnv} {poll : PollEnv} {ids : List String}

/- The two scans differ on what reads as no signal. -/
theorem pollVerdict_cases
    (hMarks : poll.marks = env.marks)
    (seen : Finset String)
    (room : Room)
    (f : SignalFile) :
    pollVerdict poll env.ids seen room f =
        classify env seen room f ∨
      (pollVerdict poll env.ids seen room f = .marked ∧
        classify env seen room f = .passed ∧
        ∀ sig, ¬ Parsed f sig) := by
  unfold pollVerdict classify
  rw [hMarks]
  split
  · exact Or.inl rfl
  · split
    · exact Or.inl rfl
    · split
      · exact Or.inl rfl
      · cases hRead : readSignalFile f with
        | error e => cases e <;> exact Or.inl rfl
        | ok content =>
            cases hParse : parseSignal (wireLine content) with
            | none =>
                refine Or.inr ⟨by simp [hParse],
                  by simp [hParse], ?_⟩
                rintro sig ⟨content', hRead', hParse'⟩
                rw [hRead] at hRead'
                cases hRead'
                rw [hParse] at hParse'
                cases hParse'
            | some sig =>
                refine Or.inl ?_
                simp only [hParse, classifyParsed]

theorem sig?_pollVerdict
    (hMarks : poll.marks = env.marks)
    (seen : Finset String)
    (room : Room)
    (f : SignalFile) :
    (pollVerdict poll env.ids seen room f).sig? =
      (classify env seen room f).sig? := by
  rcases pollVerdict_cases hMarks seen room f with
    hSame | ⟨hMarked, hPassed, -⟩
  · rw [hSame]
  · rw [hMarked, hPassed]
    rfl

/- A file whose key is seen is passed over. -/
theorem pollVerdict_of_seen
    {seen : Finset String}
    {room : Room}
    {f : SignalFile}
    (hSeen : seenKey f.name ∈ seen) :
    pollVerdict poll ids seen room f = .passed := by
  unfold pollVerdict
  rw [if_pos hSeen]
  split <;> rfl

/- One more seen key only changes its own file's verdict. -/
theorem pollVerdict_insert
    {seen : Finset String}
    {room : Room}
    {f : SignalFile}
    {k : String}
    (hKey : seenKey f.name ≠ k) :
    pollVerdict poll ids (insert k seen) room f =
      pollVerdict poll ids seen room f := by
  unfold pollVerdict
  simp only [Finset.mem_insert, hKey, false_or]

end Attend

------------------------------------------------------------
-- The Scan
------------------------------------------------------------

namespace Attend

variable {env : DrainEnv} {poll : PollEnv} {ids : List String}

/- The messages among the files, at one seen-set. -/
def foundAt
    (poll : PollEnv)
    (ids : List String)
    (seen : Finset String)
    (c : Room × SignalFile) : Option Found :=
  (pollVerdict poll ids seen c.1 c.2).sig?.map
    (fun sig => ⟨c.1, c.2, sig⟩)

/-
  No name is that of a file marked at once and of a message
  found.
-/
def KeysApart
    (poll : PollEnv)
    (ids : List String)
    (seen : Finset String)
    (files : List (Room × SignalFile)) : Prop :=
  ∀ c ∈ files, ∀ c' ∈ files, c'.2.name = c.2.name →
    (pollVerdict poll ids seen c.1 c.2).marks = true →
    (pollVerdict poll ids seen c'.1 c'.2).sig? = none

instance
    (poll : PollEnv)
    (ids : List String)
    (seen : Finset String)
    (files : List (Room × SignalFile)) :
    Decidable (KeysApart poll ids seen files) :=
  inferInstanceAs
    (Decidable
      (∀ c ∈ files, ∀ c' ∈ files, c'.2.name = c.2.name →
        (pollVerdict poll ids seen c.1 c.2).marks = true →
        (pollVerdict poll ids seen c'.1 c'.2).sig? = none))

theorem KeysApart.tail
    {seen : Finset String}
    {c : Room × SignalFile}
    {rest : List (Room × SignalFile)}
    (hApart : KeysApart poll ids seen (c :: rest)) :
    KeysApart poll ids seen rest := by
  intro a hA b hB
  exact hApart a (List.mem_cons_of_mem c hA) b
    (List.mem_cons_of_mem c hB)

/- Visiting a marked file leaves the others as they were. -/
theorem foundAt_insert
    {seen : Finset String}
    {c c' : Room × SignalFile}
    {files : List (Room × SignalFile)}
    (hApart : KeysApart poll ids seen files)
    (hMem : c ∈ files)
    (hMem' : c' ∈ files)
    (hMarks :
      (pollVerdict poll ids seen c.1 c.2).marks = true) :
    foundAt poll ids (insert (seenKey c.2.name) seen) c' =
      foundAt poll ids seen c' := by
  by_cases hKey : seenKey c'.2.name = seenKey c.2.name
  · have hPassed :
        pollVerdict poll ids (insert (seenKey c.2.name) seen)
          c'.1 c'.2 = .passed :=
      pollVerdict_of_seen
        (by rw [hKey]; exact Finset.mem_insert_self _ _)
    have hNone := hApart c hMem c' hMem' hKey hMarks
    unfold foundAt
    rw [hPassed, hNone]
    rfl
  · unfold foundAt
    rw [pollVerdict_insert hKey]

theorem KeysApart.insert
    {seen : Finset String}
    {c : Room × SignalFile}
    {files : List (Room × SignalFile)}
    (hApart : KeysApart poll ids seen files) :
    KeysApart poll ids (insert (seenKey c.2.name) seen)
      files := by
  intro a hA b hB hName hMarks
  by_cases hKey : seenKey a.2.name = seenKey c.2.name
  · rw [pollVerdict_of_seen
      (by rw [hKey]; exact Finset.mem_insert_self _ _)]
      at hMarks
    cases hMarks
  · rw [pollVerdict_insert hKey] at hMarks
    have hKey' : seenKey b.2.name ≠ seenKey c.2.name := by
      intro hEq
      exact hKey (hName.symm.trans hEq)
    rw [pollVerdict_insert hKey']
    exact hApart a hA b hB hName hMarks

/- The messages found do not depend on the marks made. -/
theorem found_foldl_pollVisit
    {seen : Finset String}
    {files : List (Room × SignalFile)}
    (found : List Found)
    (hApart : KeysApart poll ids seen files) :
    (files.foldl (pollVisit poll ids) (seen, found)).2 =
      found ++ files.filterMap (foundAt poll ids seen) := by
  induction files generalizing seen found with
  | nil => simp
  | cons c rest ih =>
      have hMarked :
          ∀ k, k = seenKey c.2.name →
            (pollVerdict poll ids seen c.1 c.2).marks = true →
            foundAt poll ids seen c = none →
            (rest.foldl (pollVisit poll ids)
              (insert k seen, found)).2 =
              found ++
                (c :: rest).filterMap
                  (foundAt poll ids seen) := by
        rintro k rfl hMarks hNone
        rw [ih found (KeysApart.insert hApart.tail),
          List.filterMap_cons, hNone]
        congr 1
        apply List.filterMap_congr
        intro c' hMem
        exact foundAt_insert hApart List.mem_cons_self
          (List.mem_cons_of_mem c hMem) hMarks
      rw [List.foldl_cons]
      cases hVerdict : pollVerdict poll ids seen c.1 c.2 with
      | passed =>
          have hStep :
              pollVisit poll ids (seen, found) c =
                (seen, found) := by
            simp [pollVisit, hVerdict]
          rw [hStep, ih found hApart.tail,
            List.filterMap_cons]
          simp [foundAt, hVerdict, Verdict.sig?]
      | skipped line =>
          have hStep :
              pollVisit poll ids (seen, found) c =
                (insert (seenKey c.2.name) seen, found) := by
            simp [pollVisit, hVerdict]
          rw [hStep]
          exact hMarked _ rfl (by rw [hVerdict]; rfl)
            (by simp [foundAt, hVerdict, Verdict.sig?])
      | marked =>
          have hStep :
              pollVisit poll ids (seen, found) c =
                (insert (seenKey c.2.name) seen, found) := by
            simp [pollVisit, hVerdict]
          rw [hStep]
          exact hMarked _ rfl (by rw [hVerdict]; rfl)
            (by simp [foundAt, hVerdict, Verdict.sig?])
      | found sig =>
          have hStep :
              pollVisit poll ids (seen, found) c =
                (seen, found ++ [⟨c.1, c.2, sig⟩]) := by
            simp [pollVisit, hVerdict]
          rw [hStep, ih _ hApart.tail, List.filterMap_cons]
          simp [foundAt, hVerdict, Verdict.sig?]

/- What the poll finds, up to the order. -/
theorem found_scanSignals
    (p : PeerSensor)
    {files : List SignalFile}
    (hApart :
      KeysApart poll (p.readingIds poll) p.seenSignals
        (receiveFiles poll.dirs files)) :
    (p.scanSignals poll files).found.Perm
      ((receiveFiles poll.dirs files).filterMap
        (foundAt poll (p.readingIds poll)
          p.seenSignals)) := by
  have hFold := found_foldl_pollVisit [] hApart
  rw [List.nil_append] at hFold
  rw [← hFold]
  exact List.perm_insertionSort _ _

/- What the drain finds is read the same way. -/
theorem foundIn_eq
    (hMarks : poll.marks = env.marks)
    (s : Session) :
    foundIn env s =
      (receiveFiles env.dirs s.files).filterMap
        (foundAt poll env.ids s.seen) := by
  apply List.filterMap_congr
  rintro ⟨room, f⟩ -
  unfold foundAt
  rw [sig?_pollVerdict hMarks]
  cases classify env s.seen room f <;> rfl

theorem receiveFiles_perm
    {dirs dirs' : List ReceiveDir}
    {files files' : List SignalFile}
    (hDirs : dirs.Perm dirs')
    (hFiles : files.Perm files') :
    (receiveFiles dirs files).Perm
      (receiveFiles dirs' files') := by
  refine (hDirs.flatMap_right _).trans ?_
  apply List.Perm.flatMap_left
  intro d _
  exact (hFiles.filter _).map _

end Attend

------------------------------------------------------------
-- The Lines
------------------------------------------------------------

namespace Attend

theorem keys_foldl_pushPending
    (env : PollEnv)
    (found : List Found)
    (activity : List (String × List Nat))
    (pending : List PendingMsg) :
    (found.foldl (pushPending env)
      (activity, pending)).2.map PendingMsg.key =
      pending.map PendingMsg.key ++
        found.map (fun f => seenKey f.file.name) := by
  induction found generalizing activity pending with
  | nil => simp
  | cons f rest ih =>
      rw [List.foldl_cons, pushPending, ih]
      simp

theorem shows_messageLines
    (env : PollEnv)
    (hintShown : Bool)
    (pending : List PendingMsg) :
    (messageLines env hintShown pending).flatMap
        Observation.shows =
      pending.map PendingMsg.key := by
  induction pending generalizing hintShown with
  | nil => rfl
  | cons m rest ih =>
      rw [messageLines, List.flatMap_cons, ih]
      rfl

theorem shows_noteLine
    (scan : SignalScan) :
    (noteLine scan).flatMap Observation.shows = [] := by
  unfold noteLine
  split <;> rfl

/- The lines show the messages surfaced, each once. -/
theorem shows_readSignals
    (p : PeerSensor)
    (env : PollEnv)
    (files : List SignalFile) :
    (p.readSignals env files).2.flatMap Observation.shows =
      ((p.scanSignals env files).surfaced (p.readingIds env)
        env.cacheLapsed).map
          (fun f => seenKey f.file.name) := by
  have hKeys :=
    keys_foldl_pushPending env
      ((p.scanSignals env files).surfaced (p.readingIds env)
        env.cacheLapsed) p.peerActivity []
  rw [List.map_nil, List.nil_append] at hKeys
  simp only [PeerSensor.readSignals, readLines,
    List.flatMap_append, shows_noteLine, List.nil_append]
  rw [← hKeys]
  split
  · simp [buildDigest]
  · exact shows_messageLines env _ _

end Attend

------------------------------------------------------------
-- The Cold Start
------------------------------------------------------------

namespace Attend

/- The messages found, as the plan takes them. -/
def pendingOf
    (now : Nat)
    (found : List Found) : List (Room × Nat) :=
  found.map (fun f => (f.room, now - f.file.mtime))

/- Whether a cold start away from ties shows a message. -/
def replayed
    (w : Window)
    (now : Nat)
    (found : List Found)
    (f : Found) : Bool :=
  w.reaches f.room (now - f.file.mtime) &&
    decide
      (upTo w (pendingOf now found)
          (f.room, now - f.file.mtime) ≤
        capOf (kindOf w (f.room, now - f.file.mtime)))

theorem zip_plan_of_untied
    {w : Window}
    {now : Nat}
    {found : List Found}
    (hUntied : Untied w (pendingOf now found)) :
    found.zip (plan (pendingOf now found) w).deliver =
      found.map (fun f => (f, replayed w now found f)) := by
  have hZip :=
    List.zip_map' (f := id) (g := replayed w now found)
      (l := found)
  rw [List.map_id] at hZip
  rw [plan_deliver_of_untied hUntied, pendingOf,
    List.map_map]
  exact hZip

theorem replayed_perm
    {w : Window}
    {now : Nat}
    {found found' : List Found}
    (hPerm : found.Perm found') :
    replayed w now found = replayed w now found' := by
  funext f
  have hPending :
      (pendingOf now found).Perm (pendingOf now found') :=
    hPerm.map _
  unfold replayed
  rw [upTo_perm hPending]

/- The drain's cold delivery, away from ties. -/
theorem delivered_of_untied
    {env : DrainEnv}
    {s : Session}
    (hCold : s.baselined = false)
    (hUntied :
      Untied env.window (pendingOf env.now (foundIn env s))) :
    (scanPending env s).delivered =
      ((foundIn env s).filter
        (replayed env.window env.now (foundIn env s))).map
          (Drained.ofFound env) := by
  have hAnswers :
      deliverable env s =
        (foundIn env s).map
          (fun f =>
            (f,
              replayed env.window env.now (foundIn env s)
                f)) := by
    rw [deliverable, hCold]
    exact zip_plan_of_untied hUntied
  simp only [scanPending, hAnswers, List.filterMap_map]
  rw [← List.filterMap_eq_map, List.filterMap_filter]
  apply List.filterMap_congr
  intro f _
  rfl

/- A scan on a cold start. -/
structure SignalScan.Cold
    (scan : SignalScan)
    (w : Window)
    (now : Nat) : Prop where
  plan : scan.plan = some (Attend.plan (pendingOf now scan.found) w)

/- The sensor's cold answers, away from ties. -/
theorem SignalScan.Cold.answers_eq
    {scan : SignalScan}
    {w : Window}
    {now : Nat}
    (hCold : scan.Cold w now)
    (hUntied : Untied w (pendingOf now scan.found)) :
    scan.answers =
      scan.found.map
        (fun f => (f, replayed w now scan.found f)) := by
  unfold SignalScan.answers
  rw [hCold.plan]
  exact zip_plan_of_untied hUntied

/- It surfaces what it would show, or none of it. -/
theorem SignalScan.Cold.surfaced_eq
    {scan : SignalScan}
    {w : Window}
    {now : Nat}
    (hCold : scan.Cold w now)
    (hUntied : Untied w (pendingOf now scan.found))
    (ids : List String)
    (cacheLapsed : Bool) :
    scan.surfaced ids cacheLapsed =
      if scan.wakes ids cacheLapsed then
        scan.found.filter (replayed w now scan.found)
      else [] := by
  unfold SignalScan.surfaced
  rw [hCold.answers_eq hUntied, List.filterMap_map]
  cases scan.wakes ids cacheLapsed with
  | false => simp
  | true =>
      simp only [Bool.and_true, if_true]
      rw [← List.filterMap_eq_filter]
      apply List.filterMap_congr
      intro f _
      simp [Option.guard]

theorem SignalScan.Cold.due_eq
    {scan : SignalScan}
    {w : Window}
    {now : Nat}
    (hCold : scan.Cold w now)
    (hUntied : Untied w (pendingOf now scan.found))
    (ids : List String) :
    scan.due ids =
      (scan.found.filter (replayed w now scan.found)).any
        (fun f =>
          f.sig.wakes f.room.isTray f.room.isChannel ids) := by
  unfold SignalScan.due
  rw [hCold.answers_eq hUntied, List.any_map,
    List.any_filter]
  rfl

end Attend

------------------------------------------------------------
-- Both Conduits
------------------------------------------------------------

namespace Attend

/-
  A drain and a poll that read the same world: one clock,
  one session, and the same rooms in any order.
-/
structure SameReading
    (env : DrainEnv)
    (poll : PollEnv) : Prop where
  now : poll.now = env.now
  dirs : poll.dirs.Perm env.dirs
  ids : poll.current = env.ids
  marks : poll.marks = env.marks
  window : poll.window = env.window

/- A sensor that starts and restores the state file. -/
def PeerSensor.restored
    (own : String)
    (s : Session)
    (hint : Option Bool) : PeerSensor :=
  (PeerSensor.new (some own)).importState s.seen hint
    s.baselined

variable {env : DrainEnv} {poll : PollEnv} {own : String}
variable {s : Session} {hint : Option Bool}
variable {listing : List SignalFile}

theorem readingIds_restored
    (hSame : SameReading env poll)
    (hOwn : own ∈ env.ids) :
    (PeerSensor.restored own s hint).readingIds poll =
      env.ids := by
  simp [PeerSensor.readingIds, PeerSensor.restored,
    PeerSensor.importState, PeerSensor.new, hSame.ids, hOwn]

theorem seenSignals_restored :
    (PeerSensor.restored own s hint).seenSignals = s.seen := by
  simp [PeerSensor.restored, PeerSensor.importState,
    PeerSensor.new]

theorem cold_scanSignals
    (hSame : SameReading env poll)
    (hCold : s.baselined = false) :
    ((PeerSensor.restored own s hint).scanSignals poll
      listing).Cold env.window env.now := by
  constructor
  simp [PeerSensor.scanSignals, PeerSensor.restored,
    PeerSensor.importState, PeerSensor.new, hCold, pendingOf,
    hSame.now, hSame.window]

/- Both find the same messages. -/
theorem found_restored
    (hSame : SameReading env poll)
    (hOwn : own ∈ env.ids)
    (hListing : listing.Perm s.files)
    (hApart :
      KeysApart poll env.ids s.seen
        (receiveFiles poll.dirs listing)) :
    ((PeerSensor.restored own s hint).scanSignals poll
      listing).found.Perm (foundIn env s) := by
  have hIds :
      (PeerSensor.restored own s hint).readingIds poll =
        env.ids :=
    readingIds_restored hSame hOwn
  rw [← hIds, ← seenSignals_restored] at hApart
  have hFound := found_scanSignals _ hApart
  rw [hIds, seenSignals_restored] at hFound
  rw [foundIn_eq hSame.marks]
  exact hFound.trans
    ((receiveFiles_perm hSame.dirs hListing).filterMap _)

/- The two conduits show the same, and withhold as many. -/
def ConduitsAgree
    (env : DrainEnv)
    (poll : PollEnv)
    (own : String)
    (s : Session)
    (listing : List SignalFile) : Prop :=
  (∀ k,
    k ∈ ((PeerSensor.restored own s none).readSignals poll
        listing).2.flatMap Observation.shows ↔
      k ∈ (scanPending env s).delivered.map Drained.key) ∧
    ((PeerSensor.restored own s none).scanSignals poll
        listing).notShown =
      (scanPending env s).heldBack

/- The poll that reads what the drain does. -/
def pollOf
    (env : DrainEnv) : PollEnv where
  now := env.now
  instant := env.now
  dirs := env.dirs
  current := env.ids
  previousIds := fun _ => []
  marks := env.marks
  window := env.window
  cacheLapsed := env.cacheLapsed
  activityWindow := 900 * 10 ^ 9
  presence := []
  senderLabel := env.senderLabel

theorem sameReading_pollOf
    (env : DrainEnv) :
    SameReading env (pollOf env) where
  now := rfl
  dirs := List.Perm.refl _
  ids := rfl
  marks := rfl
  window := rfl

/- A session with these files and no state. -/
def coldSession
    (files : List SignalFile) : Session :=
  { emptySession with files := files }

/- One of many messages of one time in the tray. -/
def trayPost
    (n : Nat) : SignalFile where
  dir := "tray"
  name := "b-" ++ toString n ++ "-0.signal"
  content := .text "claude:b|p|/p|hi\n"
  mtime := 40

/- The room message's name on one for another session. -/
def namesake : SignalFile where
  dir := "tray"
  name := "b-3-0.signal"
  content := .text "claude:b|p|/p|to:you|hi\n"
  mtime := 30

end Attend
