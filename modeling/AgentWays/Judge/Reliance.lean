import AgentWays.Judge.JobsSpec

/-
  What the calls on a session rely on, and which changes of
  its files leave it to them.

  A job's pending file is gone for good once it was claimed,
  withdrawn or finished, since its gate places it once. So a
  second claim, or a claim after a withdrawal, finds none.

  Key definitions include:
    * `JudgeJobs.Ordered`
    * `JudgeJobs.StoreOk`
    * `JudgeJobs.Own`
    * `JudgeJobs.Calm`

  Main declarations:
    * `JudgeJobs.own_of_calm`
-/

------------------------------------------------------------
-- Histories
------------------------------------------------------------

namespace JudgeJobs

variable {A T : Type}

/- The job that a return is about. -/
def Return.id : Return A → Option String
| .took id _ | .answered id _ | .waited id _ _
| .finished id => some id
| .resolved _ => none

/- A host took the job. -/
def Took
    (history : List (Return A))
    (id : String) : Prop :=
  ∃ job, .took id job ∈ history

/-
  A gate withdrew the job: no host had claimed it, or its
  file was gone and it was silent and not taken.
-/
def Withdrawn
    (history : List (Return A))
    (id : String) : Prop :=
  (∃ claimed, .waited id .unclaimed claimed ∈ history) ∨
    .waited id (.silent false) true ∈ history

/- The job's pending file is gone for good. -/
def Gone
    (history : List (Return A))
    (id : String) : Prop :=
  Took history id ∨ Withdrawn history id ∨
    .finished id ∈ history

/- What the returns before one have to be. -/
def Follows : Return A → List (Return A) → Prop
| .took id _, before => ¬ Gone before id
| .answered id _, before => Took before id
| .waited id (.answered a) _, before => .answered id a ∈ before
| .waited id .unclaimed _, before => ¬ Took before id
| .waited id (.silent false) true, before => ¬ Took before id
| _, _ => True

/- Each return of a history follows those before it. -/
def Ordered : List (Return A) → Prop
| [] => True
| r :: before => Follows r before ∧ Ordered before

theorem Took.cons
    {history : List (Return A)}
    {id : String}
    (hTook : Took history id)
    (r : Return A) :
    Took (r :: history) id := by
  rcases hTook with ⟨job, hMember⟩
  exact ⟨job, List.mem_cons_of_mem r hMember⟩

theorem took_of_cons
    {history : List (Return A)}
    {id : String}
    {r : Return A}
    (hTook : Took (r :: history) id)
    (hOther : r.id ≠ some id) :
    Took history id := by
  rcases hTook with ⟨job, hMember⟩
  rcases List.mem_cons.mp hMember with rfl | hOld
  · exact absurd rfl hOther
  · exact ⟨job, hOld⟩

/- A job is gone by the last return or was before it. -/
theorem gone_of_cons
    {history : List (Return A)}
    {id : String}
    {r : Return A}
    (hGone : Gone (r :: history) id) :
    Gone [r] id ∨ Gone history id := by
  have hSplit :
      ∀ r', r' ∈ r :: history → r' ∈ [r] ∨ r' ∈ history := by
    intro r' hMember
    rcases List.mem_cons.mp hMember with hNew | hOld
    · exact Or.inl (List.mem_singleton.mpr hNew)
    · exact Or.inr hOld
  rcases hGone with
    ⟨job, hMember⟩ | (⟨claimed, hMember⟩ | hMember) | hMember
  · exact
      (hSplit _ hMember).imp (fun h => Or.inl ⟨job, h⟩)
        (fun h => Or.inl ⟨job, h⟩)
  · exact
      (hSplit _ hMember).imp
        (fun h => Or.inr (Or.inl (Or.inl ⟨claimed, h⟩)))
        (fun h => Or.inr (Or.inl (Or.inl ⟨claimed, h⟩)))
  · exact
      (hSplit _ hMember).imp
        (fun h => Or.inr (Or.inl (Or.inr h)))
        (fun h => Or.inr (Or.inl (Or.inr h)))
  · exact
      (hSplit _ hMember).imp (fun h => Or.inr (Or.inr h))
        (fun h => Or.inr (Or.inr h))

theorem finished_of_cons
    {history : List (Return A)}
    {id : String}
    {r : Return A}
    (hFinished : .finished id ∈ r :: history)
    (hOther : r.id ≠ some id) :
    .finished id ∈ history := by
  rcases List.mem_cons.mp hFinished with rfl | hOld
  · exact absurd rfl hOther
  · exact hOld

end JudgeJobs

------------------------------------------------------------
-- Invariants
------------------------------------------------------------

namespace JudgeJobs

variable {A T : Type}

/- The job of a gate between its write and its finish. -/
def Call.gate : Call A → Option String
| .placing g _ | .reading g _ | .claimDue g _ | .withdrawing g
| .deadlineDue g _ | .lookTaken g _ | .lookAnswer g _
| .finishJob g | .finishTaken g | .finishAnswer g => some g.id
| _ => none

/- What holds of the session's files. -/
structure StoreOk
    (codecs : Codecs A T)
    (s : Store A T) : Prop where
  ordered : Ordered s.history
  gone :
    ∀ id, Gone s.history id → s.jobs.get? id = none
  untaken :
    ∀ id, .finished id ∈ s.history → s.taken.get? id = none
  claimed :
    ∀ id file, s.taken.get? id = some file →
      Took s.history id
  answered :
    ∀ id text, s.answers.get? id = some text →
      ∃ a, codecs.answer.encode a = text ∧
        .answered id a ∈ s.history ∧
          (.finished id ∈ s.history →
            [.answered id a, .finished id].Sublist s.history)
  minted :
    ∀ r ∈ s.history, ∀ id ∈ r.id, id ∈ s.minted
  jobs :
    ∀ id file, s.jobs.get? id = some file → id ∈ s.minted
  resolved :
    ∀ e, .resolved e ∈ s.history →
      ∃ text, s.resolution = some text ∧
        codecs.engine.decode text = some e

/-
  A job that is waited for: it is not finished, and while it
  is not, a claimed job's file is there.
-/
structure Waiting
    (s : Store A T)
    (id : String)
    (claimed : Bool) : Prop where
  unfinished : .finished id ∉ s.history
  gone : claimed = true → s.jobs.get? id = none
  held :
    Took s.history id → ∃ file, s.taken.get? id = some file

/- What a call at its place relies on. -/
def Rests
    (s : Store A T) : Call A → Prop
| .placing g _ =>
    (∀ r ∈ s.history, r.id ≠ some g.id) ∧
      s.jobs.get? g.id = none
| .reading g claimed | .claimDue g claimed
| .deadlineDue g claimed | .lookTaken g claimed =>
    Waiting s g.id claimed
| .withdrawing g => Waiting s g.id false
| .lookAnswer g claimed =>
    Waiting s g.id claimed ∧
      (claimed = true → ¬ Took s.history g.id)
| .finishJob g => .finished g.id ∉ s.history
| .finishTaken g =>
    .finished g.id ∉ s.history ∧ s.jobs.get? g.id = none
| .finishAnswer g =>
    .finished g.id ∉ s.history ∧ s.jobs.get? g.id = none ∧
      s.taken.get? g.id = none
| .storing id _ => Took s.history id
| _ => True

/- What a call relies on, its job's id being in use. -/
structure Own
    (s : Store A T)
    (c : Call A) : Prop where
  rests : Rests s c
  minted : ∀ id ∈ c.gate, id ∈ s.minted

/- No two gates are at one job. -/
def Apart
    (c d : Call A) : Prop :=
  ∀ id, c.gate = some id → d.gate ≠ some id

theorem Apart.symm
    (c d : Call A)
    (hApart : Apart c d) :
    Apart d c :=
  fun id hD hC => hApart id hC hD

end JudgeJobs

------------------------------------------------------------
-- Frames
------------------------------------------------------------

namespace JudgeJobs

variable {A T : Type} {s s' : Store A T} {c d : Call A}

/- A change of the files that leaves a call what it needs. -/
structure Calm
    (s s' : Store A T)
    (d : Call A) : Prop where
  minted : ∀ id ∈ s.minted, id ∈ s'.minted
  history : ∀ r ∈ s.history, r ∈ s'.history
  unknown :
    ∀ id ∈ d.gate, (∀ r ∈ s.history, r.id ≠ some id) →
      s.jobs.get? id = none →
        ∀ r ∈ s'.history, r.id ≠ some id
  jobs :
    ∀ id ∈ d.gate, s.jobs.get? id = none →
      s'.jobs.get? id = none
  finished :
    ∀ id ∈ d.gate, .finished id ∈ s'.history →
      .finished id ∈ s.history
  held :
    ∀ id ∈ d.gate,
      (Took s.history id → ∃ file, s.taken.get? id = some file) →
        Took s'.history id →
          ∃ file, s'.taken.get? id = some file
  untaken :
    ∀ id ∈ d.gate, s.jobs.get? id = none →
      s.taken.get? id = none → s'.taken.get? id = none
  took :
    ∀ id ∈ d.gate, s.jobs.get? id = none →
      Took s'.history id → Took s.history id

theorem Waiting.calm
    {id : String}
    {claimed : Bool}
    (hWaiting : Waiting s id claimed)
    (hCalm : Calm s s' d)
    (hGate : d.gate = some id) :
    Waiting s' id claimed :=
  ⟨fun hFinished =>
      hWaiting.unfinished (hCalm.finished id hGate hFinished),
    fun hClaimed =>
      hCalm.jobs id hGate (hWaiting.gone hClaimed),
    hCalm.held id hGate hWaiting.held⟩

/- A call keeps what it relies on through a calm change. -/
theorem own_of_calm
    (hOwn : Own s d)
    (hCalm : Calm s s' d) :
    Own s' d := by
  refine ⟨?_, fun id hGate => hCalm.minted id (hOwn.minted id hGate)⟩
  have hRests := hOwn.rests
  cases d with
  | placing g job =>
      exact
        ⟨hCalm.unknown g.id rfl hRests.1 hRests.2,
          hCalm.jobs g.id rfl hRests.2⟩
  | reading g claimed | claimDue g claimed
  | deadlineDue g claimed | lookTaken g claimed =>
      exact Waiting.calm hRests hCalm rfl
  | withdrawing g => exact Waiting.calm hRests hCalm rfl
  | lookAnswer g claimed =>
      refine ⟨Waiting.calm hRests.1 hCalm rfl, ?_⟩
      intro hClaimed hTook
      exact
        hRests.2 hClaimed
          (hCalm.took g.id rfl (hRests.1.gone hClaimed) hTook)
  | finishJob g =>
      exact fun hFinished =>
        hRests (hCalm.finished g.id rfl hFinished)
  | finishTaken g =>
      exact
        ⟨fun hFinished =>
            hRests.1 (hCalm.finished g.id rfl hFinished),
          hCalm.jobs g.id rfl hRests.2⟩
  | finishAnswer g =>
      exact
        ⟨fun hFinished =>
            hRests.1 (hCalm.finished g.id rfl hFinished),
          hCalm.jobs g.id rfl hRests.2.1,
          hCalm.untaken g.id rfl hRests.2.1 hRests.2.2⟩
  | storing id a =>
      rcases hRests with ⟨job, hMember⟩
      exact ⟨job, hCalm.history _ hMember⟩
  | _ => exact hRests

/- A change of neither jobs, claims nor returns is calm. -/
theorem calm_of_same
    (hMinted : ∀ id ∈ s.minted, id ∈ s'.minted)
    (hHistory : s'.history = s.history)
    (hJobs : s'.jobs = s.jobs)
    (hTaken : s'.taken = s.taken) :
    Calm s s' d := by
  refine ⟨hMinted, ?_, ?_, ?_, ?_, ?_, ?_, ?_⟩ <;>
    simp only [hHistory, hJobs, hTaken]
  · exact fun _ hMember => hMember
  · exact fun _ _ hNew _ => hNew
  · exact fun _ _ hNone => hNone
  · exact fun _ _ hFinished => hFinished
  · exact fun _ _ hHeld => hHeld
  · exact fun _ _ _ hNone => hNone
  · exact fun _ _ _ hTook => hTook

theorem calm_refl
    (s : Store A T)
    (d : Call A) :
    Calm s s d :=
  calm_of_same (fun _ hId => hId) rfl rfl rfl

/- A return about another job is calm. -/
theorem Calm.returned
    {r : Return A}
    (hCalm : Calm s s' d)
    (hOther : ∀ id ∈ d.gate, r.id ≠ some id) :
    Calm s (s'.returned r) d := by
  refine ⟨hCalm.minted, ?_, ?_, hCalm.jobs, ?_, ?_,
    hCalm.untaken, ?_⟩
  · intro r' hMember
    exact List.mem_cons_of_mem r (hCalm.history r' hMember)
  · intro id hGate hNew hNone r' hMember
    rcases List.mem_cons.mp hMember with rfl | hOld
    · exact hOther id hGate
    · exact hCalm.unknown id hGate hNew hNone r' hOld
  · intro id hGate hFinished
    exact
      hCalm.finished id hGate
        (finished_of_cons hFinished (hOther id hGate))
  · intro id hGate hHeld hTook
    exact
      hCalm.held id hGate hHeld
        (took_of_cons hTook (hOther id hGate))
  · intro id hGate hNone hTook
    exact
      hCalm.took id hGate hNone
        (took_of_cons hTook (hOther id hGate))

theorem calm_mint
    (id : String) :
    Calm s (s.mint id) d :=
  calm_of_same (fun _ hId => List.mem_cons_of_mem id hId) rfl rfl
    rfl

theorem calm_placeJob
    {id : String}
    {text : T}
    (hOther : d.gate ≠ some id) :
    Calm s (s.placeJob id text) d := by
  refine ⟨fun _ hId => hId, fun _ hR => hR,
    fun _ _ hNew _ => hNew, ?_, fun _ _ hFinished => hFinished,
    fun _ _ hHeld => hHeld, fun _ _ _ hNone => hNone,
    fun _ _ _ hTook => hTook⟩
  intro id' hGate hNone
  have hNe : id' ≠ id := by
    rintro rfl
    exact hOther hGate
  rw [get?_placeJob, if_neg hNe]
  exact hNone

theorem calm_removeJob
    (id : String) :
    Calm s (s.removeJob id) d := by
  refine ⟨fun _ hId => hId, fun _ hR => hR,
    fun _ _ hNew _ => hNew, ?_, fun _ _ hFinished => hFinished,
    fun _ _ hHeld => hHeld, fun _ _ _ hNone => hNone,
    fun _ _ _ hTook => hTook⟩
  intro id' _ hNone
  rw [get?_removeJob]
  split
  · rfl
  · exact hNone

theorem calm_removeTaken
    {id : String}
    (hOther : d.gate ≠ some id) :
    Calm s (s.removeTaken id) d := by
  refine ⟨fun _ hId => hId, fun _ hR => hR,
    fun _ _ hNew _ => hNew, fun _ _ hNone => hNone,
    fun _ _ hFinished => hFinished, ?_, ?_,
    fun _ _ _ hTook => hTook⟩
  · intro id' hGate hHeld hTook
    have hNe : id' ≠ id := by
      rintro rfl
      exact hOther hGate
    rw [get?_removeTaken, if_neg hNe]
    exact hHeld hTook
  · intro id' _ _ hNone
    rw [get?_removeTaken]
    split
    · rfl
    · exact hNone

theorem calm_removeAnswer
    (id : String) :
    Calm s (s.removeAnswer id) d :=
  calm_of_same (fun _ hId => hId) rfl rfl rfl

theorem calm_publish
    (text : T) :
    Calm s (s.publish text) d :=
  calm_of_same (fun _ hId => hId) rfl rfl rfl

theorem calm_world
    (event : World) :
    Calm s (s.world event) d := by
  cases event with
  | tick _ | registerHost =>
      exact calm_of_same (fun _ hId => hId) rfl rfl rfl

/- The claim of a pending job is calm for every gate. -/
theorem calm_claim
    {id : String}
    {file : JobFile T}
    {job : JudgeJob}
    (hJob : s.jobs.get? id = some file) :
    Calm s ((s.claim id file).returned (.took id job)) d := by
  have hOther :
      ∀ id', s.jobs.get? id' = none →
        (Return.took id job : Return A).id ≠ some id' := by
    rintro id' hNone ⟨⟩
    rw [hJob] at hNone
    cases hNone
  refine ⟨fun _ hId => hId, ?_, ?_, ?_, ?_, ?_, ?_, ?_⟩
  · intro r hMember
    exact List.mem_cons_of_mem _ hMember
  · intro id' _ hNew hNone r hMember
    rcases List.mem_cons.mp hMember with rfl | hOld
    · exact hOther id' hNone
    · exact hNew r hOld
  · intro id' _ hNone
    change (s.claim id file).jobs.get? id' = none
    rw [get?_jobs_claim]
    split
    · rfl
    · exact hNone
  · intro id' _ hFinished
    rcases List.mem_cons.mp hFinished with hNew | hOld
    · cases hNew
    · exact hOld
  · intro id' _ hHeld hTook
    change ∃ file', (s.claim id file).taken.get? id' = some file'
    rw [get?_taken_claim]
    split
    · exact ⟨file, rfl⟩
    · rename_i hNe
      apply hHeld
      apply took_of_cons hTook
      rintro ⟨⟩
      exact hNe rfl
  · intro id' _ hNone hUntaken
    change (s.claim id file).taken.get? id' = none
    rw [get?_taken_claim]
    split
    · rename_i hEq
      exact absurd (congrArg some hEq.symm) (hOther id' hNone)
    · exact hUntaken
  · intro id' _ hNone hTook
    exact took_of_cons hTook (hOther id' hNone)

/- An answer to a job that was taken is calm for every gate. -/
theorem calm_placeAnswer
    {id : String}
    {text : T}
    {a : A}
    (hTook : Took s.history id) :
    Calm s ((s.placeAnswer id text).returned (.answered id a))
      d := by
  have hBack :
      ∀ id', Took (.answered id a :: s.history) id' →
        Took s.history id' := by
    rintro id' ⟨job, hMember⟩
    rcases List.mem_cons.mp hMember with hNew | hOld
    · cases hNew
    · exact ⟨job, hOld⟩
  refine ⟨fun _ hId => hId, ?_, ?_, fun _ _ hNone => hNone, ?_,
    ?_, fun _ _ _ hNone => hNone, ?_⟩
  · intro r hMember
    exact List.mem_cons_of_mem _ hMember
  · intro id' _ hNew _ r hMember
    rcases List.mem_cons.mp hMember with rfl | hOld
    · rintro ⟨⟩
      rcases hTook with ⟨job, hThere⟩
      exact hNew _ hThere rfl
    · exact hNew r hOld
  · intro id' _ hFinished
    rcases List.mem_cons.mp hFinished with hNew | hOld
    · cases hNew
    · exact hOld
  · intro id' _ hHeld hTaken
    exact hHeld (hBack id' hTaken)
  · intro id' _ _ hTaken
    exact hBack id' hTaken

end JudgeJobs
