import AgentWays.Attend.Drain

/-
  What one drain marks, delivers and holds back.

  A key gets into the mark list for a file that was skipped,
  that is not this session's to read, or that was found; a
  found one leaves it again when the drain holds what it
  would have delivered. Each reason is a definition of its
  own, and a drain's new keys are read off them.

  Key definitions include:
    * `Attend.Parsed`
    * `Attend.Pending`
    * `Attend.heldBackFiles`
    * `Attend.Accounted`

  Main declarations:
    * `Attend.cmdInboxDrain_cases`
    * `Attend.drainPending_marks`
    * `Attend.drainPending_accounted`
    * `Attend.drainPending_pending`
-/

------------------------------------------------------------
-- Reasons
------------------------------------------------------------

namespace Attend

open RustText

/- A file that reads as a signal. -/
def Parsed
    (f : SignalFile)
    (sig : ParsedSignal) : Prop :=
  ∃ content,
    readSignalFile f = .ok content ∧
      parseSignal (wireLine content) = some sig

/- A file of the drain's receive set. -/
def Received
    (env : DrainEnv)
    (room : Room)
    (f : SignalFile) : Prop :=
  ∃ d ∈ env.dirs, d.path = f.dir ∧ d.room = room

/- The session itself sent it, under any of its ids. -/
def Own
    (env : DrainEnv)
    (f : SignalFile) : Prop :=
  ∃ sig, Parsed f sig ∧ sig.isOwn env.ids = true

/- A tombstoned session sent it. -/
def Tombstoned
    (env : DrainEnv)
    (f : SignalFile) : Prop :=
  ∃ sig,
    Parsed f sig ∧
      env.marks.hidesSender sig.senderId f.mtime = true

/- A tray holds it for another session. -/
def ForAnother
    (env : DrainEnv)
    (f : SignalFile) : Prop :=
  ∃ sig room,
    Parsed f sig ∧ Received env room f ∧
      room.isTray = true ∧ sig.trayReads env.ids = false

/- It is over the file limit and was reported as skipped. -/
def ReportedSkipped
    (out : DrainOut)
    (f : SignalFile) : Prop :=
  readSignalFile f = .error .fileTooLarge ∧
    skipLine f ∈ out.skipped

/- The drain delivered it: shown, or counted as not shown. -/
def Delivered
    (out : DrainOut)
    (f : SignalFile) : Prop :=
  ∃ d ∈ out.delivered, d.key = seenKey f.name

/- The files a cold start marks without showing. -/
def heldBackFiles
    (env : DrainEnv)
    (s : Session) : List SignalFile :=
  (deliverable env s).filterMap
    (fun p => if p.2 then none else some p.1.file)

/- It was counted in the held-back note the drain printed. -/
def CountedHeldBack
    (env : DrainEnv)
    (s : Session)
    (out : DrainOut)
    (f : SignalFile) : Prop :=
  f ∈ heldBackFiles env s ∧
    out.note = heldBackNote (heldBackFiles env s).length ∧
    out.note.isSome = true

/- Why a drain may put a message's key in the seen-set. -/
def Accounted
    (env : DrainEnv)
    (s : Session)
    (out : DrainOut)
    (f : SignalFile) : Prop :=
  Own env f ∨ Tombstoned env f ∨ ForAnother env f ∨
    ReportedSkipped out f ∨ Delivered out f ∨
    CountedHeldBack env s out f

/-
  A message waiting for this session: a parseable, unhidden
  signal of the receive set that is unseen, from a sender
  that is neither tombstoned nor the session itself, and in
  a tray only if it is this session's to read.
-/
def PendingAs
    (env : DrainEnv)
    (s : Session)
    (room : Room)
    (sig : ParsedSignal)
    (f : SignalFile) : Prop :=
  f ∈ s.files ∧ Received env room f ∧
    endsWith f.name ".signal" = true ∧
    seenKey f.name ∉ s.seen ∧
    env.marks.hides (seenKey f.name) = false ∧
    Parsed f sig ∧
    env.marks.hidesSender sig.senderId f.mtime = false ∧
    sig.isOwn env.ids = false ∧
    (room.isTray = true → sig.trayReads env.ids = true)

def Pending
    (env : DrainEnv)
    (s : Session)
    (f : SignalFile) : Prop :=
  ∃ room sig, PendingAs env s room sig f

/-
  A drain that delivers what is pending: not a wake drain,
  or one with a message to wake for and the cache warm.
-/
def Delivers
    (env : DrainEnv)
    (s : Session) : Prop :=
  env.wake = false ∨
    (env.cacheLapsed = false ∧
      ∃ room sig f,
        PendingAs env s room sig f ∧
          sig.wakes room.isTray room.isChannel env.ids =
            true)

end Attend

------------------------------------------------------------
-- The Scan
------------------------------------------------------------

namespace Attend

open RustText

variable {env : DrainEnv} {s : Session}

theorem mem_candidates
    {files : List SignalFile}
    {room : Room}
    {f : SignalFile} :
    (room, f) ∈ candidates env files ↔
      f ∈ files ∧ Received env room f := by
  simp only [candidates, List.mem_flatMap, List.mem_map,
    List.mem_filter, decide_eq_true_eq, Prod.mk.injEq,
    Received]
  constructor
  · rintro ⟨d, hDir, g, ⟨hFile, hPath⟩, rfl, rfl⟩
    exact ⟨hFile, d, hDir, hPath.symm, rfl⟩
  · rintro ⟨hFile, d, hDir, hPath, rfl⟩
    exact ⟨d, hDir, f, ⟨hFile, hPath.symm⟩, rfl, rfl⟩

theorem mem_foundIn
    {f : Found} :
    f ∈ foundIn env s ↔
      f.file ∈ s.files ∧ Received env f.room f.file ∧
        classify env s.seen f.room f.file = .found f.sig := by
  simp only [foundIn, List.mem_filterMap]
  constructor
  · rintro ⟨⟨room, g⟩, hMem, hMatch⟩
    split at hMatch
    · rename_i sig hFound
      cases hMatch
      rcases mem_candidates.mp hMem with ⟨hFile, hDir⟩
      exact ⟨hFile, hDir, hFound⟩
    · cases hMatch
  · rintro ⟨hFile, hDir, hFound⟩
    refine ⟨(f.room, f.file), mem_candidates.mpr ⟨hFile, hDir⟩,
      ?_⟩
    simp only [hFound]

/- A file is passed over, over the limit, or a signal. -/
theorem classify_cases
    (env : DrainEnv)
    (seen : Finset String)
    (room : Room)
    (f : SignalFile) :
    classify env seen room f = .passed ∨
      (endsWith f.name ".signal" = true ∧
        seenKey f.name ∉ seen ∧
        env.marks.hides (seenKey f.name) = false ∧
        ((readSignalFile f = .error .fileTooLarge ∧
            classify env seen room f =
              .skipped (skipLine f)) ∨
          ∃ sig,
            Parsed f sig ∧
              classify env seen room f =
                classifyParsed env room f sig)) := by
  unfold classify
  split
  · exact Or.inl rfl
  · rename_i hSuffix
    have hName : endsWith f.name ".signal" = true := by
      simpa using hSuffix
    split
    · exact Or.inl rfl
    · rename_i hUnseen
      split
      · exact Or.inl rfl
      · rename_i hShown
        have hUnhidden := Bool.eq_false_of_not_eq_true hShown
        split
        · rename_i hRead
          exact Or.inr ⟨hName, hUnseen, hUnhidden,
            Or.inl ⟨hRead, rfl⟩⟩
        · exact Or.inl rfl
        · rename_i content hRead
          split
          · exact Or.inl rfl
          · rename_i sig hParse
            exact Or.inr ⟨hName, hUnseen, hUnhidden,
              Or.inr ⟨sig, ⟨content, hRead, hParse⟩, rfl⟩⟩

theorem classifyParsed_ne_skipped
    (room : Room)
    (f : SignalFile)
    (sig : ParsedSignal)
    (line : String) :
    classifyParsed env room f sig ≠ .skipped line := by
  unfold classifyParsed
  split
  · simp
  · split
    · simp
    · split <;> simp

/- What a skipped file is. -/
theorem classify_skipped
    {seen : Finset String}
    {room : Room}
    {f : SignalFile}
    {line : String}
    (hVerdict : classify env seen room f = .skipped line) :
    readSignalFile f = .error .fileTooLarge ∧
      line = skipLine f := by
  rcases classify_cases env seen room f with
    hPassed | ⟨-, -, -,
      ⟨hRead, hSkipped⟩ | ⟨sig, -, hParsed⟩⟩
  · rw [hPassed] at hVerdict
    cases hVerdict
  · rw [hSkipped] at hVerdict
    cases hVerdict
    exact ⟨hRead, rfl⟩
  · rw [hParsed] at hVerdict
    exact absurd hVerdict
      (classifyParsed_ne_skipped room f sig line)

/- What a marked file is. -/
theorem classify_marked
    {seen : Finset String}
    {room : Room}
    {f : SignalFile}
    (hVerdict : classify env seen room f = .marked) :
    ∃ sig,
      Parsed f sig ∧
        (env.marks.hidesSender sig.senderId f.mtime = true ∨
          sig.isOwn env.ids = true ∨
          (room.isTray = true ∧
            sig.trayReads env.ids = false)) := by
  rcases classify_cases env seen room f with
    hPassed | ⟨-, -, -,
      ⟨-, hSkipped⟩ | ⟨sig, hSig, hParsed⟩⟩
  · rw [hPassed] at hVerdict
    cases hVerdict
  · rw [hSkipped] at hVerdict
    cases hVerdict
  · refine ⟨sig, hSig, ?_⟩
    rw [hParsed] at hVerdict
    unfold classifyParsed at hVerdict
    split at hVerdict
    · rename_i hTomb
      exact Or.inl hTomb
    · split at hVerdict
      · rename_i hOwn
        exact Or.inr (Or.inl hOwn)
      · split at hVerdict
        · rename_i hTray
          simp only [Bool.and_eq_true, Bool.not_eq_true']
            at hTray
          exact Or.inr (Or.inr hTray)
        · cases hVerdict

theorem classifyParsed_found
    {room : Room}
    {f : SignalFile}
    {sig sig' : ParsedSignal} :
    classifyParsed env room f sig = .found sig' ↔
      sig = sig' ∧
        env.marks.hidesSender sig.senderId f.mtime = false ∧
        sig.isOwn env.ids = false ∧
        (room.isTray = true →
          sig.trayReads env.ids = true) := by
  unfold classifyParsed
  by_cases hTomb :
      env.marks.hidesSender sig.senderId f.mtime = true
  · simp [hTomb]
  · by_cases hOwn : sig.isOwn env.ids = true
    · simp [hTomb, hOwn]
    · by_cases hTray : room.isTray = true
      · by_cases hReads : sig.trayReads env.ids = true
        · simp [hTomb, hOwn, hTray, hReads]
        · simp [hTomb, hOwn, hTray, hReads]
      · simp [hTomb, hOwn, hTray]

/- What a found file is. -/
theorem classify_found
    {seen : Finset String}
    {room : Room}
    {f : SignalFile}
    {sig : ParsedSignal} :
    classify env seen room f = .found sig ↔
      endsWith f.name ".signal" = true ∧
        seenKey f.name ∉ seen ∧
        env.marks.hides (seenKey f.name) = false ∧
        Parsed f sig ∧
        env.marks.hidesSender sig.senderId f.mtime = false ∧
        sig.isOwn env.ids = false ∧
        (room.isTray = true →
          sig.trayReads env.ids = true) := by
  constructor
  · intro hFound
    rcases classify_cases env seen room f with
      hPassed | ⟨hName, hUnseen, hUnhidden,
        ⟨-, hSkipped⟩ | ⟨sig', hSig, hParsed⟩⟩
    · rw [hPassed] at hFound
      cases hFound
    · rw [hSkipped] at hFound
      cases hFound
    · rw [hParsed, classifyParsed_found] at hFound
      rcases hFound with ⟨rfl, hTomb, hOwn, hTray⟩
      exact ⟨hName, hUnseen, hUnhidden, hSig, hTomb, hOwn,
        hTray⟩
  · rintro ⟨hName, hUnseen, hUnhidden, ⟨content, hRead, hParse⟩,
      hTomb, hOwn, hTray⟩
    simp only [classify, hName, Bool.not_true,
      Bool.false_eq_true, if_false, hUnseen, hUnhidden, hRead,
      hParse]
    exact classifyParsed_found.mpr ⟨rfl, hTomb, hOwn, hTray⟩

/- The messages waiting are those the scan finds. -/
theorem pendingAs_iff
    {room : Room}
    {sig : ParsedSignal}
    {f : SignalFile} :
    PendingAs env s room sig f ↔
      (⟨room, f, sig⟩ : Found) ∈ foundIn env s := by
  rw [mem_foundIn, classify_found]
  rfl

theorem pending_iff
    {f : SignalFile} :
    Pending env s f ↔ ∃ g ∈ foundIn env s, g.file = f := by
  constructor
  · rintro ⟨room, sig, hPending⟩
    exact ⟨⟨room, f, sig⟩, pendingAs_iff.mp hPending, rfl⟩
  · rintro ⟨g, hMem, rfl⟩
    exact ⟨g.room, g.sig, pendingAs_iff.mpr hMem⟩

/- Every message found has an answer. -/
theorem exists_deliverable
    {f : Found}
    (hMem : f ∈ foundIn env s) :
    ∃ b, (f, b) ∈ deliverable env s := by
  unfold deliverable
  split
  · exact ⟨true, List.mem_map.mpr ⟨f, hMem, rfl⟩⟩
  · rcases List.mem_iff_getElem.mp hMem with ⟨i, hi, rfl⟩
    have hPlan : i < (coldPlan env s).deliver.length := by
      rw [coldPlan, length_plan, List.length_map]
      exact hi
    refine ⟨(coldPlan env s).deliver[i], ?_⟩
    apply List.mem_iff_getElem.mpr
    refine ⟨i, by simp [hi, hPlan], ?_⟩
    simp

theorem mem_foundIn_of_deliverable
    {f : Found}
    {b : Bool}
    (hMem : (f, b) ∈ deliverable env s) :
    f ∈ foundIn env s := by
  unfold deliverable at hMem
  split at hMem
  · rcases List.mem_map.mp hMem with ⟨g, hIn, hEq⟩
    cases hEq
    exact hIn
  · exact (List.of_mem_zip hMem).1

/- On a warm scan everything found is to be delivered. -/
theorem deliver_of_baselined
    {f : Found}
    {b : Bool}
    (hWarm : s.baselined = true)
    (hMem : (f, b) ∈ deliverable env s) :
    b = true := by
  rw [deliverable, if_pos hWarm] at hMem
  rcases List.mem_map.mp hMem with ⟨g, -, hEq⟩
  cases hEq
  rfl

theorem mem_scan_delivered
    {d : Drained} :
    d ∈ (scanPending env s).delivered ↔
      ∃ f, (f, true) ∈ deliverable env s ∧
        d = Drained.ofFound env f := by
  simp only [scanPending, List.mem_filterMap]
  constructor
  · rintro ⟨⟨f, b⟩, hMem, hMatch⟩
    cases b with
    | false => simp at hMatch
    | true =>
        simp only [if_true, Option.some.injEq] at hMatch
        exact ⟨f, hMem, hMatch.symm⟩
  · rintro ⟨f, hMem, rfl⟩
    exact ⟨(f, true), hMem, by simp⟩

theorem mem_heldBackFiles
    {f : Found}
    (hMem : (f, false) ∈ deliverable env s) :
    f.file ∈ heldBackFiles env s := by
  rw [heldBackFiles, List.mem_filterMap]
  exact ⟨(f, false), hMem, by simp⟩

end Attend

namespace Attend

variable {env : DrainEnv} {s : Session}

/- Where the keys of the mark list come from. -/
theorem mem_scan_mark
    {k : String} :
    k ∈ (scanPending env s).mark ↔
      (∃ room f,
          f ∈ s.files ∧ Received env room f ∧
            seenKey f.name = k ∧
            (classify env s.seen room f =
                .skipped (skipLine f) ∨
              classify env s.seen room f = .marked)) ∨
        ∃ f ∈ foundIn env s, seenKey f.file.name = k := by
  simp only [scanPending, List.mem_append, List.mem_map]
  apply or_congr_left
  rw [List.mem_filterMap]
  constructor
  · rintro ⟨⟨room, f⟩, hMem, hMatch⟩
    rcases mem_candidates.mp hMem with ⟨hFile, hDir⟩
    split at hMatch
    · rename_i line hSkipped
      rcases classify_skipped hSkipped with ⟨-, rfl⟩
      exact ⟨room, f, hFile, hDir, Option.some.inj hMatch,
        Or.inl hSkipped⟩
    · rename_i hMarked
      exact ⟨room, f, hFile, hDir, Option.some.inj hMatch,
        Or.inr hMarked⟩
    · cases hMatch
  · rintro ⟨room, f, hFile, hDir, rfl, hSkipped | hMarked⟩
    · exact ⟨(room, f), mem_candidates.mpr ⟨hFile, hDir⟩, by
        simp only [hSkipped]⟩
    · exact ⟨(room, f), mem_candidates.mpr ⟨hFile, hDir⟩, by
        simp only [hMarked]⟩

theorem mem_scan_skipped
    {room : Room}
    {f : SignalFile}
    (hFile : f ∈ s.files)
    (hDir : Received env room f)
    (hSkipped :
      classify env s.seen room f = .skipped (skipLine f)) :
    skipLine f ∈ (scanPending env s).skipped := by
  simp only [scanPending, List.mem_filterMap]
  refine ⟨(room, f), mem_candidates.mpr ⟨hFile, hDir⟩, ?_⟩
  simp only [hSkipped]

/- The plan's count is that of the files held back. -/
theorem notShown_eq
    (hCold : s.baselined = false) :
    (coldPlan env s).notShown =
      (heldBackFiles env s).length := by
  have hLength :
      (coldPlan env s).deliver.length ≤
        (foundIn env s).length := by
    rw [coldPlan, length_plan, List.length_map]
  calc
    (coldPlan env s).notShown
      = (coldPlan env s).deliver.countP (fun d => !d) := rfl
    _ = (((foundIn env s).zip
            (coldPlan env s).deliver).map Prod.snd).countP
          (fun d => !d) := by
        rw [List.map_snd_zip hLength]
    _ = ((foundIn env s).zip
            (coldPlan env s).deliver).countP
          (fun p => !p.2) := by
        rw [List.countP_map]
        rfl
    _ = (heldBackFiles env s).length := by
        rw [heldBackFiles, deliverable, hCold,
          List.length_filterMap_eq_countP]
        apply List.countP_congr
        rintro ⟨f, b⟩ _
        cases b <;> simp

/- The note counts the files the cold start holds back. -/
theorem note_of_cold
    (hCold : s.baselined = false) :
    (scanPending env s).note =
      heldBackNote (heldBackFiles env s).length := by
  rw [← notShown_eq hCold]
  simp [scanPending, hCold, Plan.note]

theorem heldBackNote_isSome
    {n : Nat}
    (hPos : 0 < n) :
    (heldBackNote n).isSome = true := by
  unfold heldBackNote
  split
  · omega
  · rfl
  · rfl

end Attend

------------------------------------------------------------
-- The Record
------------------------------------------------------------

namespace Attend

variable {env : DrainEnv} {s : Session}

/- A key that names a file of the store. -/
def Session.Names
    (s : Session)
    (k : String) : Prop :=
  k ∈ s.files.map SignalFile.name

theorem mem_writeMerged
    {keys : List String}
    {baselined listable : Bool}
    {k : String}
    (hMem : k ∈ (s.writeMerged keys baselined listable).seen) :
    k ∈ s.seen ∨ k ∈ keys := by
  unfold Session.writeMerged at hMem
  cases listable with
  | true =>
      simp only [if_true, Finset.mem_filter, Finset.mem_union,
        List.mem_toFinset] at hMem
      exact hMem.1
  | false => simpa using hMem

/- A key whose file is there is not pruned. -/
theorem mem_writeMerged_of_names
    {keys : List String}
    {k : String}
    (baselined listable : Bool)
    (hNames : s.Names k)
    (hMem : k ∈ s.seen ∨ k ∈ keys) :
    k ∈ (s.writeMerged keys baselined listable).seen := by
  unfold Session.writeMerged
  cases listable with
  | true =>
      simp only [if_true, Finset.mem_filter, Finset.mem_union,
        List.mem_toFinset]
      exact ⟨hMem, hNames⟩
  | false => simpa using hMem

theorem mem_markSeen
    {keys : List String}
    {listable : Bool}
    {k : String}
    (hMem : k ∈ (s.markSeen keys listable).seen) :
    k ∈ s.seen ∨ k ∈ keys := by
  unfold Session.markSeen at hMem
  split at hMem
  · exact Or.inl hMem
  · exact mem_writeMerged hMem

theorem mem_markSeen_of_names
    {keys : List String}
    {k : String}
    (listable : Bool)
    (hNames : s.Names k)
    (hMem : k ∈ s.seen ∨ k ∈ keys) :
    k ∈ (s.markSeen keys listable).seen := by
  unfold Session.markSeen
  split
  · rename_i hEmpty
    rw [List.isEmpty_iff.mp hEmpty] at hMem
    simpa using hMem
  · exact mem_writeMerged_of_names false listable hNames hMem

/- The state a drain writes its marks into. -/
def beforeMarks
    (s : Session)
    (env : DrainEnv)
    (scan : Scan) : Session :=
  let s' :=
    if env.mode = .hook ∧ env.staleNoted = true then
      s.writeMerged [] false env.listable
    else s
  if (scan.outgoing env).isEmpty then { s' with rounds := 0 }
  else s'

theorem recordDrain_eq
    (s : Session)
    (env : DrainEnv)
    (scan : Scan) :
    recordDrain s env scan =
      if s.baselined then
        (beforeMarks s env scan).markSeen (scan.recorded env)
          env.listable
      else
        (beforeMarks s env scan).baseline (scan.recorded env)
          env.listable := rfl

theorem files_beforeMarks
    (scan : Scan) :
    (beforeMarks s env scan).files = s.files := by
  unfold beforeMarks
  split <;> split <;> rfl

theorem seen_beforeMarks
    (scan : Scan) :
    (beforeMarks s env scan).seen =
      if env.mode = .hook ∧ env.staleNoted = true then
        (s.writeMerged [] false env.listable).seen
      else s.seen := by
  unfold beforeMarks
  split <;> split <;> simp_all

theorem mem_beforeMarks
    {scan : Scan}
    {k : String}
    (hMem : k ∈ (beforeMarks s env scan).seen) :
    k ∈ s.seen := by
  rw [seen_beforeMarks] at hMem
  split at hMem
  · rcases mem_writeMerged hMem with hOld | hNew
    · exact hOld
    · cases hNew
  · exact hMem

theorem mem_beforeMarks_of_names
    (scan : Scan)
    {k : String}
    (hNames : s.Names k)
    (hMem : k ∈ s.seen) :
    k ∈ (beforeMarks s env scan).seen := by
  rw [seen_beforeMarks]
  split
  · exact mem_writeMerged_of_names _ _ hNames (Or.inl hMem)
  · exact hMem

theorem files_recordDrain
    (scan : Scan) :
    (recordDrain s env scan).files = s.files := by
  rw [recordDrain_eq]
  split
  · rw [Session.markSeen]
    split
    · exact files_beforeMarks scan
    · exact files_beforeMarks scan
  · exact files_beforeMarks scan

/- A drain's seen-set holds old keys and recorded ones. -/
theorem mem_recordDrain
    {scan : Scan}
    {k : String}
    (hMem : k ∈ (recordDrain s env scan).seen) :
    k ∈ s.seen ∨ k ∈ scan.recorded env := by
  rw [recordDrain_eq] at hMem
  split at hMem
  · rcases mem_markSeen hMem with hOld | hNew
    · exact Or.inl (mem_beforeMarks hOld)
    · exact Or.inr hNew
  · rcases mem_writeMerged hMem with hOld | hNew
    · exact Or.inl (mem_beforeMarks hOld)
    · exact Or.inr hNew

/- And all of these whose files are there. -/
theorem mem_recordDrain_of_names
    {scan : Scan}
    {k : String}
    (hNames : s.Names k)
    (hMem : k ∈ s.seen ∨ k ∈ scan.recorded env) :
    k ∈ (recordDrain s env scan).seen := by
  have hStill : (beforeMarks s env scan).Names k := by
    rw [Session.Names, files_beforeMarks]
    exact hNames
  have hBefore :
      k ∈ (beforeMarks s env scan).seen ∨
        k ∈ scan.recorded env := by
    rcases hMem with hOld | hNew
    · exact Or.inl (mem_beforeMarks_of_names scan hNames hOld)
    · exact Or.inr hNew
  rw [recordDrain_eq]
  split
  · exact mem_markSeen_of_names _ hStill hBefore
  · exact mem_writeMerged_of_names _ _ hStill hBefore

end Attend

------------------------------------------------------------
-- One Drain
------------------------------------------------------------

namespace Attend

variable {env : DrainEnv} {s : Session}

theorem mem_outgoing
    {scan : Scan}
    {d : Drained} :
    d ∈ scan.outgoing env ↔
      scan.held env = false ∧ d ∈ scan.delivered := by
  unfold Scan.outgoing
  cases hHeld : scan.held env with
  | true => simp
  | false => simp

theorem mem_printDrain
    {scan : Scan}
    {d : Drained} :
    d ∈ (printDrain s env scan).delivered ↔
      d ∈ scan.outgoing env := by
  simp only [DrainOut.delivered, printDrain]
  split
  · rw [List.take_append_drop]
  · rw [List.append_nil]

theorem mem_recorded
    {scan : Scan}
    {k : String} :
    k ∈ scan.recorded env ↔
      k ∈ scan.mark ∧
        (scan.held env = true →
          k ∉ scan.delivered.map Drained.key) := by
  unfold Scan.recorded
  cases hHeld : scan.held env with
  | true =>
      simp only [if_true, List.mem_filter, decide_eq_true_eq,
        forall_const]
  | false => simp

/- A message to be delivered goes out, or waits unmarked. -/
theorem drainPending_deliverable
    {f : Found}
    (hMem : (f, true) ∈ deliverable env s) :
    ((scanPending env s).held env = false ∧
        Delivered (drainPending s env).2 f.file ∧
        seenKey f.file.name ∈
          (scanPending env s).recorded env) ∨
      ((scanPending env s).held env = true ∧
        seenKey f.file.name ∉
          (scanPending env s).recorded env) := by
  have hDelivered :
      Drained.ofFound env f ∈ (scanPending env s).delivered :=
    mem_scan_delivered.mpr ⟨f, hMem, rfl⟩
  have hMark :
      seenKey f.file.name ∈ (scanPending env s).mark :=
    mem_scan_mark.mpr
      (Or.inr ⟨f, mem_foundIn_of_deliverable hMem, rfl⟩)
  cases hHeld : (scanPending env s).held env with
  | false =>
      refine Or.inl ⟨rfl, ?_, ?_⟩
      · exact ⟨Drained.ofFound env f,
          mem_printDrain.mpr
            (mem_outgoing.mpr ⟨hHeld, hDelivered⟩), rfl⟩
      · exact mem_recorded.mpr ⟨hMark, by simp [hHeld]⟩
  | true =>
      refine Or.inr ⟨rfl, ?_⟩
      rw [mem_recorded]
      rintro ⟨-, hOut⟩
      apply hOut hHeld
      exact List.mem_map.mpr
        ⟨Drained.ofFound env f, hDelivered, rfl⟩

/- A message held back is counted in the note. -/
theorem drainPending_heldBack
    {f : Found}
    (hMem : (f, false) ∈ deliverable env s) :
    CountedHeldBack env s (drainPending s env).2 f.file := by
  have hFile := mem_heldBackFiles hMem
  have hCold : s.baselined = false := by
    rw [← Bool.not_eq_true]
    intro hWarm
    have hTrue := deliver_of_baselined hWarm hMem
    cases hTrue
  have hNote :
      (drainPending s env).2.note =
        heldBackNote (heldBackFiles env s).length :=
    note_of_cold hCold
  refine ⟨hFile, hNote, ?_⟩
  rw [hNote]
  exact heldBackNote_isSome (List.length_pos_of_mem hFile)

/- Every key a drain records is accounted for. -/
theorem drainPending_accounted
    {k : String}
    (hMem : k ∈ (scanPending env s).recorded env) :
    ∃ f ∈ s.files,
      (∃ room, Received env room f) ∧ seenKey f.name = k ∧
        Accounted env s (drainPending s env).2 f := by
  have hMark := (mem_recorded.mp hMem).1
  rcases mem_scan_mark.mp hMark with
    ⟨room, f, hFile, hDir, rfl, hSkipped | hMarked⟩ |
      ⟨g, hFound, rfl⟩
  · refine ⟨f, hFile, ⟨room, hDir⟩, rfl, ?_⟩
    have hReported :
        ReportedSkipped (drainPending s env).2 f :=
      ⟨(classify_skipped hSkipped).1,
        mem_scan_skipped hFile hDir hSkipped⟩
    exact Or.inr (Or.inr (Or.inr (Or.inl hReported)))
  · refine ⟨f, hFile, ⟨room, hDir⟩, rfl, ?_⟩
    rcases classify_marked hMarked with
      ⟨sig, hSig, hTomb | hOwn | ⟨hTray, hReads⟩⟩
    · exact Or.inr (Or.inl ⟨sig, hSig, hTomb⟩)
    · exact Or.inl ⟨sig, hSig, hOwn⟩
    · exact Or.inr (Or.inr (Or.inl
        ⟨sig, room, hSig, hDir, hTray, hReads⟩))
  · rcases mem_foundIn.mp hFound with ⟨hFile, hDir, -⟩
    refine ⟨g.file, hFile, ⟨g.room, hDir⟩, rfl, ?_⟩
    rcases exists_deliverable hFound with ⟨b, hAnswer⟩
    cases b with
    | true =>
        rcases drainPending_deliverable hAnswer with
          ⟨-, hDelivered, -⟩ | ⟨-, hWaits⟩
        · exact Or.inr (Or.inr (Or.inr (Or.inr
            (Or.inl hDelivered))))
        · exact absurd hMem hWaits
    | false =>
        exact Or.inr (Or.inr (Or.inr (Or.inr
          (Or.inr (drainPending_heldBack hAnswer)))))

/-
  A message waiting before a drain is delivered by it, is
  counted in its note, or is unmarked after it.
-/
theorem drainPending_pending
    {f : SignalFile}
    (hPending : Pending env s f) :
    Delivered (drainPending s env).2 f ∨
      CountedHeldBack env s (drainPending s env).2 f ∨
      seenKey f.name ∉ (drainPending s env).1.seen := by
  rcases pending_iff.mp hPending with ⟨g, hFound, rfl⟩
  rcases exists_deliverable hFound with ⟨b, hAnswer⟩
  cases b with
  | false =>
      exact Or.inr (Or.inl (drainPending_heldBack hAnswer))
  | true =>
      rcases drainPending_deliverable hAnswer with
        ⟨-, hDelivered, -⟩ | ⟨-, hWaits⟩
      · exact Or.inl hDelivered
      · refine Or.inr (Or.inr ?_)
        intro hSeen
        have hUnseen : seenKey g.file.name ∉ s.seen :=
          (classify_found.mp (mem_foundIn.mp hFound).2.2).2.1
        rcases mem_recordDrain hSeen with hOld | hNew
        · exact hUnseen hOld
        · exact hWaits hNew

/- A delivered message was unseen, and is marked. -/
theorem drainPending_delivered
    {f : SignalFile}
    (hDelivered : Delivered (drainPending s env).2 f) :
    seenKey f.name ∉ s.seen ∧ s.Names (seenKey f.name) ∧
      seenKey f.name ∈ (drainPending s env).1.seen := by
  rcases hDelivered with ⟨d, hMem, hKey⟩
  rcases mem_outgoing.mp (mem_printDrain.mp hMem) with
    ⟨hHeld, hScan⟩
  rcases mem_scan_delivered.mp hScan with ⟨g, hAnswer, rfl⟩
  have hFound := mem_foundIn_of_deliverable hAnswer
  rcases mem_foundIn.mp hFound with ⟨hFile, -, hClass⟩
  rw [← hKey]
  have hNames : s.Names (seenKey g.file.name) :=
    List.mem_map_of_mem hFile
  refine ⟨(classify_found.mp hClass).2.1, hNames, ?_⟩
  apply mem_recordDrain_of_names hNames
  apply Or.inr
  rw [mem_recorded]
  refine ⟨mem_scan_mark.mpr (Or.inr ⟨g, hFound, rfl⟩), ?_⟩
  simp [hHeld]

/- A warm drain that delivers holds nothing. -/
theorem not_held_of_delivers
    (hWarm : s.baselined = true)
    (hDelivers : Delivers env s) :
    (scanPending env s).held env = false := by
  unfold Scan.held
  rcases hDelivers with
    hTurn | ⟨hCache, room, sig, f, hPending, hWakes⟩
  · rw [hTurn, Bool.false_and]
  · have hFound := pendingAs_iff.mp hPending
    rcases exists_deliverable hFound with ⟨b, hAnswer⟩
    have hTrue := deliver_of_baselined hWarm hAnswer
    subst hTrue
    have hAny :
        (scanPending env s).delivered.any Drained.wakes =
          true := by
      apply List.any_eq_true.mpr
      exact ⟨_, mem_scan_delivered.mpr ⟨_, hAnswer, rfl⟩,
        hWakes⟩
    cases hWake : env.wake with
    | false => rfl
    | true =>
        simp [Scan.lapsed, Scan.due, hWake, hAny, hCache]

theorem drainPending_delivers
    {f : SignalFile}
    (hWarm : s.baselined = true)
    (hDelivers : Delivers env s)
    (hPending : Pending env s f) :
    Delivered (drainPending s env).2 f := by
  rcases pending_iff.mp hPending with ⟨g, hFound, rfl⟩
  rcases exists_deliverable hFound with ⟨b, hAnswer⟩
  have hTrue := deliver_of_baselined hWarm hAnswer
  subst hTrue
  rcases drainPending_deliverable hAnswer with
    ⟨-, hDelivered, -⟩ | ⟨hHeld, -⟩
  · exact hDelivered
  · rw [not_held_of_delivers hWarm hDelivers] at hHeld
    cases hHeld

theorem bumpDrainRounds_cases
    (s : Session)
    (env : DrainEnv)
    (stopActive : Bool) :
    (∃ rounds,
        bumpDrainRounds s env stopActive =
          ({ s with rounds := rounds }, some rounds)) ∨
      bumpDrainRounds s env stopActive = (s, none) := by
  unfold bumpDrainRounds
  by_cases hWritable : env.roundsWritable = true
  · exact Or.inl ⟨_, if_pos hWritable⟩
  · exact Or.inr (if_neg hWritable)

/- The gates leave all but the re-entry counter alone. -/
theorem cmdInboxDrain_cases
    (s : Session)
    (env : DrainEnv) :
    (∃ rounds status,
        status ≠ .drained ∧
          cmdInboxDrain s env =
            ({ s with rounds := rounds },
              .nothing status)) ∨
      ∃ rounds,
        cmdInboxDrain s env =
          drainPending { s with rounds := rounds } env := by
  unfold cmdInboxDrain
  split
  · exact Or.inl ⟨s.rounds, .unresolved, by simp, rfl⟩
  · split
    · exact Or.inl ⟨s.rounds, .notListening, by simp, rfl⟩
    · rcases bumpDrainRounds_cases s env
        (decide (env.mode = .hook) && env.stopHookActive) with
        ⟨rounds, hBump⟩ | hBump
      · simp only [hBump]
        split
        · exact Or.inl ⟨rounds, .deferred, by simp, rfl⟩
        · exact Or.inr ⟨rounds, rfl⟩
      · simp only [hBump]
        split
        · exact Or.inl ⟨s.rounds, .deferred, by simp, rfl⟩
        · exact Or.inr ⟨s.rounds, rfl⟩

end Attend
