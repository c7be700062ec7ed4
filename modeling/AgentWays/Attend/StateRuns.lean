import AgentWays.Attend.StateFileSpec

/-
  What six writers of one state file keep of each other.

  Under the text there is a store of one snapshot: a call
  merges its own part into it. A run of calls on the file
  simulates the run on that store as long as every text the
  calls write is safe in its line, and there the marks only
  grow, and each field is its last own writer's.

  Key definitions include:
    * `Attend.applyCall`, the store under the file
    * `Attend.Write.keys`
    * `Attend.Write.Plain`
    * `Attend.FileOk`

  Main declarations:
    * `Attend.loadState_writeCall`
    * `Attend.views_markSeen`, the drain's session as a view
    * `Attend.stateFile_run`
-/

------------------------------------------------------------
-- The Store Under The File
------------------------------------------------------------

namespace Attend

open RustText

/- What a call makes of the snapshot that is stored. -/
def applyCall
    (stored : Option StateSnapshot)
    (call : Call) : Option StateSnapshot :=
  let disk := stored.getD StateSnapshot.default
  match call.write with
  | .checkpoint state =>
      some (merged disk state false call.existing)
  | .markSeen keys =>
      if keys.isEmpty then stored
      else
        some
          (merged disk (seenOnly keys false) true
            call.existing)
  | .baseline keys =>
      some
        (merged disk (seenOnly keys true) true call.existing)
  | .recordModVersion version =>
      if stored.bind StateSnapshot.modVersion =
          some version then stored
      else
        some
          (merged disk
            { StateSnapshot.default with
              modVersion := some version } true
            call.existing)
  | .markModStaleNoted installed =>
      some
        (merged disk
          { StateSnapshot.default with
            modStaleNoted := some installed } true
          call.existing)
  | .reopenColdStart =>
      stored.map (fun s => { s with baselined := false })

def storeMachine :
    StepMachine (Option StateSnapshot) Call Unit :=
  { step := fun stored call => (applyCall stored call, ()) }

/- The keys a call records. -/
def Write.keys : Write → Finset String
| .checkpoint state => state.seenSignals
| .markSeen keys => keys.toFinset
| .baseline keys => keys.toFinset
| .recordModVersion _ => ∅
| .markModStaleNoted _ => ∅
| .reopenColdStart => ∅

/- Every key is the filename of a minted signal. -/
def Call.Minted
    (call : Call) : Prop :=
  ∀ k ∈ call.write.keys,
    ∃ senderId nanos seq, k = signalFilename senderId nanos seq

/-
  The texts a call writes are safe at the end of a line, and
  a checkpoint has no mod field of its own.
-/
def Write.Plain : Write → Prop
| .checkpoint state =>
    (state.modVersion = none ∧ state.modStaleNoted = none) ∧
      (∀ v ∈ state.gitBranch, TailSafe v) ∧
      ∀ v ∈ state.gitHead, TailSafe v
| .recordModVersion version => TailSafe version
| .markModStaleNoted installed => TailSafe installed
| .markSeen _ => True
| .baseline _ => True
| .reopenColdStart => True

/- A call of minted keys and safe texts. -/
def Call.Sound
    (call : Call) : Prop :=
  call.Minted ∧ call.write.Plain

theorem safe_default :
    StateSnapshot.default.Safe := by
  refine ⟨?_, ?_, ?_, ?_, ?_⟩
  · intro k hMem
    cases hMem
  · intro v hMem
    cases hMem
  · intro v hMem
    cases hMem
  · intro v hMem
    cases hMem
  · intro v hMem
    cases hMem

theorem mem_merged_seen
    {disk mem : StateSnapshot}
    {fieldsFromDisk : Bool}
    {existing : Option (Finset String)}
    {k : String} :
    k ∈ (merged disk mem fieldsFromDisk
        existing).seenSignals ↔
      (k ∈ disk.seenSignals ∨ k ∈ mem.seenSignals) ∧
        ∀ names ∈ existing, k ∈ names := by
  unfold merged
  cases existing with
  | none => simp
  | some names => simp

/- Safe parts merge to a safe whole. -/
theorem merged_safe
    {disk mem : StateSnapshot}
    (fieldsFromDisk : Bool)
    (existing : Option (Finset String))
    (hDisk : disk.Safe)
    (hMem : mem.Safe) :
    (merged disk mem fieldsFromDisk existing).Safe := by
  have hFields :
      (if fieldsFromDisk then disk else mem).Safe := by
    cases fieldsFromDisk with
    | true => exact hDisk
    | false => exact hMem
  have hOr :
      ∀ {a b : Option String},
        (∀ v ∈ a, TailSafe v) → (∀ v ∈ b, TailSafe v) →
          ∀ v ∈ a.or b, TailSafe v := by
    intro a b hA hB v hIn
    cases a with
    | none => exact hB v hIn
    | some x => exact hA v hIn
  refine ⟨?_, hFields.gitBranch, hFields.gitHead,
    hOr hMem.modVersion hDisk.modVersion,
    hOr hMem.modStaleNoted hDisk.modStaleNoted⟩
  intro k hIn
  rcases (mem_merged_seen.mp hIn).1 with hOld | hNew
  · exact hDisk.keys k hOld
  · exact hMem.keys k hNew

theorem keySafe_of_minted
    {call : Call}
    (hMinted : call.Minted) :
    ∀ k ∈ call.write.keys, KeySafe k := by
  intro k hMem
  rcases hMinted k hMem with ⟨senderId, nanos, seq, rfl⟩
  exact keySafe_signalFilename senderId nanos seq

theorem seenOnly_safe
    {keys : List String}
    (baselined : Bool)
    (hKeys : ∀ k ∈ keys.toFinset, KeySafe k) :
    (seenOnly keys baselined).Safe :=
  { keys := hKeys
    gitBranch := safe_default.gitBranch
    gitHead := safe_default.gitHead
    modVersion := safe_default.modVersion
    modStaleNoted := safe_default.modStaleNoted }

theorem some_safe
    {text : String}
    (hText : TailSafe text) :
    ∀ v ∈ some text, TailSafe v := by
  intro v hMem
  rw [Option.mem_some_iff] at hMem
  rw [← hMem]
  exact hText

/- What is stored is safe. -/
def StoredSafe
    (stored : Option StateSnapshot) : Prop :=
  ∀ s ∈ stored, s.Safe

theorem StoredSafe.getD
    {stored : Option StateSnapshot}
    (hStored : StoredSafe stored) :
    (stored.getD StateSnapshot.default).Safe := by
  cases stored with
  | none => exact safe_default
  | some s => exact hStored s rfl

theorem storedSafe_some
    {s : StateSnapshot}
    (hSafe : s.Safe) :
    StoredSafe (some s) := by
  intro t hMem
  rw [Option.mem_some_iff] at hMem
  rw [← hMem]
  exact hSafe

theorem applyCall_safe
    {stored : Option StateSnapshot}
    {call : Call}
    (hStored : StoredSafe stored)
    (hCall : call.Sound) :
    StoredSafe (applyCall stored call) := by
  have hDisk := hStored.getD
  have hKeys := keySafe_of_minted hCall.1
  have hPlain := hCall.2
  unfold applyCall
  dsimp only
  cases hWrite : call.write with
  | checkpoint state =>
      rw [hWrite] at hPlain hKeys
      rcases hPlain with ⟨⟨hMod, hNoted⟩, hBranch, hHead⟩
      apply storedSafe_some
      apply merged_safe _ _ hDisk
      refine ⟨hKeys, hBranch, hHead, ?_, ?_⟩
      · rw [hMod]
        intro v hMem
        cases hMem
      · rw [hNoted]
        intro v hMem
        cases hMem
  | markSeen keys =>
      rw [hWrite] at hKeys
      dsimp only
      split
      · exact hStored
      · exact storedSafe_some
          (merged_safe _ _ hDisk (seenOnly_safe false hKeys))
  | baseline keys =>
      rw [hWrite] at hKeys
      exact storedSafe_some
        (merged_safe _ _ hDisk (seenOnly_safe true hKeys))
  | recordModVersion version =>
      rw [hWrite] at hPlain
      dsimp only
      split
      · exact hStored
      · apply storedSafe_some
        apply merged_safe _ _ hDisk
        exact
          { keys := safe_default.keys
            gitBranch := safe_default.gitBranch
            gitHead := safe_default.gitHead
            modVersion := some_safe hPlain
            modStaleNoted := safe_default.modStaleNoted }
  | markModStaleNoted installed =>
      rw [hWrite] at hPlain
      apply storedSafe_some
      apply merged_safe _ _ hDisk
      exact
        { keys := safe_default.keys
          gitBranch := safe_default.gitBranch
          gitHead := safe_default.gitHead
          modVersion := safe_default.modVersion
          modStaleNoted := some_safe hPlain }
  | reopenColdStart =>
      intro t hMem
      rw [Option.mem_def, Option.map_eq_some_iff] at hMem
      rcases hMem with ⟨s, hSome, rfl⟩
      have hSafe := hStored s hSome
      exact ⟨hSafe.keys, hSafe.gitBranch, hSafe.gitHead,
        hSafe.modVersion, hSafe.modStaleNoted⟩

/- The file after a call reads as the store after it. -/
theorem loadState_writeCall
    {file : Option String}
    {call : Call}
    (hStored : StoredSafe (loadState file))
    (hCall : call.Sound) :
    loadState (writeCall file call) =
      applyCall (loadState file) call := by
  have hSafe := applyCall_safe hStored hCall
  have hRead :
      ∀ s : StateSnapshot, s.Safe →
        loadState (some (s.serialize call.order)) =
          some s := by
    intro s hS
    unfold loadState
    rw [Option.map_some, deserialize_serialize call.order hS]
  unfold applyCall at hSafe ⊢
  unfold writeCall writeMerged
  dsimp only at hSafe ⊢
  cases hWrite : call.write with
  | checkpoint state =>
      rw [hWrite] at hSafe
      exact hRead _ (hSafe _ rfl)
  | markSeen keys =>
      rw [hWrite] at hSafe
      dsimp only at hSafe ⊢
      split
      · rfl
      · rename_i hSome
        rw [if_neg hSome] at hSafe
        exact hRead _ (hSafe _ rfl)
  | baseline keys =>
      rw [hWrite] at hSafe
      exact hRead _ (hSafe _ rfl)
  | recordModVersion version =>
      rw [hWrite] at hSafe
      dsimp only at hSafe ⊢
      split
      · rfl
      · rename_i hOther
        rw [if_neg hOther] at hSafe
        exact hRead _ (hSafe _ rfl)
  | markModStaleNoted installed =>
      rw [hWrite] at hSafe
      exact hRead _ (hSafe _ rfl)
  | reopenColdStart =>
      rw [hWrite] at hSafe
      dsimp only at hSafe ⊢
      cases hLoad : loadState file with
      | none => exact hLoad
      | some s =>
          rw [hLoad] at hSafe
          dsimp only
          split
          · exact hRead _ (hSafe _ rfl)
          · rename_i hCold
            have hFalse : s.baselined = false := by
              simpa using hCold
            rw [hLoad, Option.map_some]
            cases s
            simp only at hFalse
            subst hFalse
            rfl

end Attend

------------------------------------------------------------
-- What A Call Keeps
------------------------------------------------------------

namespace Attend

open RustText

/- The snapshot that is stored, or the default. -/
def stored
    (s : Option StateSnapshot) : StateSnapshot :=
  s.getD StateSnapshot.default

/- The fields only the sensor loop writes. -/
structure SensorFields where
  disclosedThresholds : List UInt8
  contextPct : Option Nat
  replyHintShown : Bool
  gitBranch : Option String
  gitHead : Option String

def StateSnapshot.sensor
    (s : StateSnapshot) : SensorFields :=
  { disclosedThresholds := s.disclosedThresholds
    contextPct := s.contextPct
    replyHintShown := s.replyHintShown
    gitBranch := s.gitBranch
    gitHead := s.gitHead }

/- What a call writes of the sensor's fields. -/
def Call.sensor
    (call : Call) : Option SensorFields :=
  match call.write with
  | .checkpoint state => some state.sensor
  | _ => none

def Call.modVersion
    (call : Call) : Option (Option String) :=
  match call.write with
  | .recordModVersion version => some (some version)
  | _ => none

def Call.modStaleNoted
    (call : Call) : Option (Option String) :=
  match call.write with
  | .markModStaleNoted installed => some (some installed)
  | _ => none

theorem applyCall_sensor
    (s : Option StateSnapshot)
    (call : Call) :
    (stored (applyCall s call)).sensor =
      call.sensor.getD (stored s).sensor := by
  unfold applyCall Call.sensor
  dsimp only
  cases call.write with
  | checkpoint state => rfl
  | markSeen keys =>
      dsimp only
      split
      · rfl
      · rfl
  | baseline keys => rfl
  | recordModVersion version =>
      dsimp only
      split
      · rfl
      · rfl
  | markModStaleNoted installed => rfl
  | reopenColdStart =>
      cases s with
      | none => rfl
      | some s => rfl

theorem applyCall_modVersion
    {call : Call}
    (s : Option StateSnapshot)
    (hPlain : call.write.Plain) :
    (stored (applyCall s call)).modVersion =
      call.modVersion.getD (stored s).modVersion := by
  unfold applyCall Call.modVersion
  dsimp only
  cases hWrite : call.write with
  | checkpoint state =>
      rw [hWrite] at hPlain
      simp only [stored, merged, Option.getD_some,
        hPlain.1.1, Option.none_or, Option.getD_none]
  | markSeen keys =>
      dsimp only
      split
      · rfl
      · rfl
  | baseline keys => rfl
  | recordModVersion version =>
      dsimp only
      split
      · rename_i hSame
        cases s with
        | none => cases hSame
        | some s => exact hSame
      · rfl
  | markModStaleNoted installed => rfl
  | reopenColdStart =>
      cases s with
      | none => rfl
      | some s => rfl

theorem applyCall_modStaleNoted
    {call : Call}
    (s : Option StateSnapshot)
    (hPlain : call.write.Plain) :
    (stored (applyCall s call)).modStaleNoted =
      call.modStaleNoted.getD (stored s).modStaleNoted := by
  unfold applyCall Call.modStaleNoted
  dsimp only
  cases hWrite : call.write with
  | checkpoint state =>
      rw [hWrite] at hPlain
      simp only [stored, merged, Option.getD_some,
        hPlain.1.2, Option.none_or, Option.getD_none]
  | markSeen keys =>
      dsimp only
      split
      · rfl
      · rfl
  | baseline keys => rfl
  | recordModVersion version =>
      dsimp only
      split
      · rfl
      · rfl
  | markModStaleNoted installed => rfl
  | reopenColdStart =>
      cases s with
      | none => rfl
      | some s => rfl

/- Only a reopened cold start clears the mark. -/
theorem applyCall_baselined
    {s : Option StateSnapshot}
    {call : Call}
    (hBase : (stored s).baselined = true)
    (hOther : call.write ≠ .reopenColdStart) :
    (stored (applyCall s call)).baselined = true := by
  have hMerged :
      ∀ mem fields,
        (merged (stored s) mem fields
          call.existing).baselined = true := by
    intro mem fields
    unfold merged
    dsimp only
    rw [hBase, Bool.true_or]
  unfold applyCall
  dsimp only
  cases hWrite : call.write with
  | checkpoint state => exact hMerged _ _
  | markSeen keys =>
      dsimp only
      split
      · exact hBase
      · exact hMerged _ _
  | baseline keys => exact hMerged _ _
  | recordModVersion version =>
      dsimp only
      split
      · exact hBase
      · exact hMerged _ _
  | markModStaleNoted installed => exact hMerged _ _
  | reopenColdStart => exact absurd hWrite hOther

/- A key whose signal the call lists is there afterwards. -/
theorem applyCall_seen
    {s : Option StateSnapshot}
    {call : Call}
    {k : String}
    (hKey :
      k ∈ (stored s).seenSignals ∨ k ∈ call.write.keys)
    (hListed : ∀ names ∈ call.existing, k ∈ names) :
    k ∈ (stored (applyCall s call)).seenSignals := by
  unfold applyCall
  dsimp only
  cases hWrite : call.write with
  | checkpoint state =>
      rw [hWrite] at hKey
      exact mem_merged_seen.mpr ⟨hKey, hListed⟩
  | markSeen keys =>
      rw [hWrite] at hKey
      dsimp only
      split
      · rename_i hNone
        rcases hKey with hOld | hNew
        · exact hOld
        · have hNil := List.isEmpty_iff.mp hNone
          rw [hNil] at hNew
          cases hNew
      · exact mem_merged_seen.mpr ⟨hKey, hListed⟩
  | baseline keys =>
      rw [hWrite] at hKey
      exact mem_merged_seen.mpr ⟨hKey, hListed⟩
  | recordModVersion version =>
      rw [hWrite] at hKey
      dsimp only
      split
      · rcases hKey with hOld | hNew
        · exact hOld
        · cases hNew
      · exact mem_merged_seen.mpr ⟨hKey, hListed⟩
  | markModStaleNoted installed =>
      rw [hWrite] at hKey
      exact mem_merged_seen.mpr ⟨hKey, hListed⟩
  | reopenColdStart =>
      rw [hWrite] at hKey
      rcases hKey with hOld | hNew
      · cases s with
        | none => exact hOld
        | some s => exact hOld
      · cases hNew

theorem storeFinal_seen
    {s : Option StateSnapshot}
    {calls : List Call}
    {k : String}
    (hKey : k ∈ (stored s).seenSignals)
    (hListed :
      ∀ c ∈ calls, ∀ names ∈ c.existing, k ∈ names) :
    k ∈ (stored (storeMachine.final s calls)).seenSignals := by
  induction calls generalizing s with
  | nil => exact hKey
  | cons c rest ih =>
      apply ih
      · exact applyCall_seen (Or.inl hKey)
          (hListed c (by simp))
      · intro d hMem
        exact hListed d (List.mem_cons_of_mem _ hMem)

end Attend

------------------------------------------------------------
-- The Drain's View
------------------------------------------------------------

namespace Attend

/- The signals a call lists, when it can list them. -/
def Session.listing
    (s : Session)
    (listable : Bool) : Option (Finset String) :=
  if listable then
    some (s.files.map SignalFile.name).toFinset
  else none

/- A session's marks are those its state file stores. -/
structure Session.Views
    (s : Session)
    (d : Option StateSnapshot) : Prop where
  seen : s.seen = (stored d).seenSignals
  baselined : s.baselined = (stored d).baselined

theorem views_writeMerged
    {s : Session}
    {d : Option StateSnapshot}
    (keys : List String)
    (baselined listable : Bool)
    (hViews : s.Views d) :
    (s.writeMerged keys baselined listable).Views
      (some
        (merged (stored d) (seenOnly keys baselined) true
          (s.listing listable))) := by
  refine ⟨?_, ?_⟩
  · unfold Session.writeMerged Session.listing merged
    cases listable with
    | true =>
        simp only [if_true, hViews.seen, stored, seenOnly,
          Option.getD_some, List.mem_toFinset]
    | false =>
        simp only [Bool.false_eq_true, if_false,
          hViews.seen, stored, seenOnly, Option.getD_some]
  · exact congrArg (· || baselined) hViews.baselined

/- The drain's two writes are calls on the state file. -/
theorem views_markSeen
    {s : Session}
    {d : Option StateSnapshot}
    (keys : List String)
    (listable : Bool)
    (order : HashOrder)
    (hViews : s.Views d) :
    (s.markSeen keys listable).Views
      (applyCall d
        { write := .markSeen keys
          existing := s.listing listable
          order := order }) := by
  unfold Session.markSeen applyCall
  dsimp only
  split
  · exact hViews
  · exact views_writeMerged keys false listable hViews

theorem views_baseline
    {s : Session}
    {d : Option StateSnapshot}
    (keys : List String)
    (listable : Bool)
    (order : HashOrder)
    (hViews : s.Views d) :
    (s.baseline keys listable).Views
      (applyCall d
        { write := .baseline keys
          existing := s.listing listable
          order := order }) :=
  views_writeMerged keys true listable hViews

end Attend

------------------------------------------------------------
-- Runs
------------------------------------------------------------

namespace Attend

open RustText

theorem storedSafe_writeCall
    {file : Option String}
    {call : Call}
    (hStored : StoredSafe (loadState file))
    (hCall : call.Sound) :
    StoredSafe (loadState (writeCall file call)) := by
  rw [loadState_writeCall hStored hCall]
  exact applyCall_safe hStored hCall

/- The file's run is the store's run. -/
theorem loadState_final
    {file : Option String}
    {calls : List Call}
    (hStart : StoredSafe (loadState file))
    (hCalls : ∀ c ∈ calls, c.Sound) :
    loadState (stateMachine.final file calls) =
        storeMachine.final (loadState file) calls ∧
      StoredSafe (loadState (stateMachine.final file calls)) := by
  apply StepMachine.simulates_final
    (fun f s => loadState f = s ∧ StoredSafe (loadState f))
    Call.Sound _ hCalls ⟨rfl, hStart⟩
  rintro f s call ⟨hEq, hSafe⟩ hCall
  constructor
  · rw [← hEq]
    exact loadState_writeCall hSafe hCall
  · exact storedSafe_writeCall hSafe hCall

/- What six writers should keep of each other. -/
structure FileOk
    (file : Option String)
    (calls : List Call) : Prop where
  seen :
    ∀ earlier call later k,
      calls = earlier ++ call :: later →
      k ∈ call.write.keys →
      (∀ c ∈ call :: later,
        ∀ names ∈ c.existing, k ∈ names) →
        k ∈ (stored (loadState
          (stateMachine.final file calls))).seenSignals
  sensor :
    (stored (loadState
        (stateMachine.final file calls))).sensor =
      (calls.filterMap Call.sensor).getLast?.getD
        (stored (loadState file)).sensor
  modVersion :
    (stored (loadState
        (stateMachine.final file calls))).modVersion =
      (calls.filterMap Call.modVersion).getLast?.getD
        (stored (loadState file)).modVersion
  modStaleNoted :
    (stored (loadState
        (stateMachine.final file calls))).modStaleNoted =
      (calls.filterMap Call.modStaleNoted).getLast?.getD
        (stored (loadState file)).modStaleNoted
  baselined :
    ∀ t ∈ stateMachine.trace file calls,
      (stored (loadState t.before)).baselined = true →
      (stored (loadState t.after)).baselined = false →
        t.input.write = .reopenColdStart
  roundTrip :
    ∀ s ∈ loadState (stateMachine.final file calls),
      ∀ order, deserialize (s.serialize order) = s

/- An order a hash set may have: its elements sorted. -/
def sortedOrder : HashOrder :=
  { iter := fun s => s.sort (· ≤ ·)
    nodup := fun s => s.sort_nodup (· ≤ ·)
    toFinset := fun s => s.sort_toFinset (· ≤ ·) }

/- A call that finds these signals on disk. -/
def sampleCall
    (write : Write)
    (names : List String) : Call :=
  { write := write
    existing := some names.toFinset
    order := sortedOrder }

def sampleCalls : List Call :=
  [sampleCall (.markSeen [signalFilename "a" 1 0])
      [signalFilename "a" 1 0],
    sampleCall (.recordModVersion "0.27.1")
      [signalFilename "a" 1 0],
    sampleCall (.checkpoint StateSnapshot.default)
      [signalFilename "a" 1 0]]

theorem sampleCalls_minted :
    ∀ c ∈ sampleCalls, c.Minted := by
  intro c hMem k hKey
  simp only [sampleCalls, List.mem_cons,
    List.not_mem_nil, or_false] at hMem
  rcases hMem with rfl | rfl | rfl
  · simp only [sampleCall, Write.keys, List.toFinset_cons,
      List.toFinset_nil, Finset.mem_insert,
      Finset.notMem_empty, or_false] at hKey
    exact ⟨"a", 1, 0, hKey⟩
  · simp [sampleCall, Write.keys] at hKey
  · simp [sampleCall, Write.keys,
      StateSnapshot.default] at hKey

theorem sampleCalls_plain :
    ∀ c ∈ sampleCalls, c.write.Plain := by
  intro c hMem
  simp only [sampleCalls, List.mem_cons,
    List.not_mem_nil, or_false] at hMem
  rcases hMem with rfl | rfl | rfl
  · trivial
  · exact ⟨by decide, by decide, by decide⟩
  · exact ⟨⟨rfl, rfl⟩, safe_default.gitBranch,
      safe_default.gitHead⟩

/- A version whose second line is a field of the file. -/
def forgedVersion : Call :=
  sampleCall (.recordModVersion "1\nbaselined: true") []

end Attend
