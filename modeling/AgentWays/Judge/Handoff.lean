import AgentWays.Judge.Reliance

/-
  The handoff over every interleaving of gates, hosts and
  requests for the engine.

  A job is taken at most once and never after it was
  withdrawn; an answer that a gate returns was given after
  the job was taken; a finished job leaves no pending and no
  claimed file; and all requests that return the stored
  engine return the same one.

  Key definitions include:
    * `JudgeJobs.Handoff`

  Main declarations:
    * `JudgeJobs.storeOk_of_step`
    * `JudgeJobs.sound_of_mem_trace`
    * `JudgeJobs.handoff`
-/

------------------------------------------------------------
-- A Call's Own Step
------------------------------------------------------------

namespace JudgeJobs

variable {A T : Type} {codecs : Codecs A T}
variable {s s' : Store A T} {c c' d : Call A} {e : Choice}

/- What a step may ask of its move: an id not in use. -/
def Fresh
    (s : Store A T)
    (c : Call A) : Prop :=
  ∀ g job, c = .writing g job → g.id ∉ s.minted

/- A return is added to the history that it follows. -/
theorem StoreOk.returned
    {r : Return A}
    (hStore : StoreOk codecs s)
    (hFollows : Follows r s.history)
    (hMinted : ∀ id ∈ r.id, id ∈ s.minted)
    (hGone : ∀ id, Gone [r] id → s.jobs.get? id = none)
    (hFinished :
      ∀ id, .finished id = r →
        s.taken.get? id = none ∧ s.answers.get? id = none)
    (hResolved :
      ∀ e, .resolved e = r →
        ∃ text, s.resolution = some text ∧
          codecs.engine.decode text = some e) :
    StoreOk codecs (s.returned r) := by
  refine ⟨⟨hFollows, hStore.ordered⟩, ?_, ?_, ?_, ?_, ?_,
    hStore.jobs, ?_⟩
  · intro id hHistory
    rcases gone_of_cons hHistory with hNew | hOld
    · exact hGone id hNew
    · exact hStore.gone id hOld
  · intro id hDone
    rcases List.mem_cons.mp hDone with hNew | hOld
    · exact (hFinished id hNew).1
    · exact hStore.untaken id hOld
  · intro id file hTaken
    exact (hStore.claimed id file hTaken).cons r
  · intro id text hAnswer
    rcases hStore.answered id text hAnswer with
      ⟨a, hText, hMember, hLate⟩
    refine ⟨a, hText, List.mem_cons_of_mem r hMember, ?_⟩
    intro hDone
    rcases List.mem_cons.mp hDone with hNew | hOld
    · have hNone : s.answers.get? id = some text := hAnswer
      rw [(hFinished id hNew).2] at hNone
      cases hNone
    · exact (hLate hOld).cons r
  · intro r' hMember id hId
    rcases List.mem_cons.mp hMember with rfl | hOld
    · exact hMinted id hId
    · exact hStore.minted r' hOld id hId
  · intro engine hMember
    rcases List.mem_cons.mp hMember with hNew | hOld
    · exact hResolved engine hNew
    · exact hStore.resolved engine hOld

theorem StoreOk.mint
    (hStore : StoreOk codecs s)
    (id : String) :
    StoreOk codecs (s.mint id) := by
  refine ⟨hStore.ordered, hStore.gone, hStore.untaken,
    hStore.claimed, hStore.answered, ?_, ?_, hStore.resolved⟩
  · intro r hMember id' hId
    exact List.mem_cons_of_mem id (hStore.minted r hMember id' hId)
  · intro id' file hJob
    exact List.mem_cons_of_mem id (hStore.jobs id' file hJob)

theorem StoreOk.placeJob
    {id : String}
    {text : T}
    (hStore : StoreOk codecs s)
    (hNew : ∀ r ∈ s.history, r.id ≠ some id)
    (hMinted : id ∈ s.minted) :
    StoreOk codecs (s.placeJob id text) := by
  refine ⟨hStore.ordered, ?_, hStore.untaken, hStore.claimed,
    hStore.answered, hStore.minted, ?_, hStore.resolved⟩
  · intro id' hGone
    have hNe : id' ≠ id := by
      rintro rfl
      rcases hGone with
        ⟨job, hMember⟩ | (⟨claimed, hMember⟩ | hMember) | hMember
      all_goals exact hNew _ hMember rfl
    rw [get?_placeJob, if_neg hNe]
    exact hStore.gone id' hGone
  · intro id' file hJob
    rw [get?_placeJob] at hJob
    split at hJob
    · rename_i hEq
      rw [hEq]
      exact hMinted
    · exact hStore.jobs id' file hJob

theorem StoreOk.removeJob
    (hStore : StoreOk codecs s)
    (id : String) :
    StoreOk codecs (s.removeJob id) := by
  refine ⟨hStore.ordered, ?_, hStore.untaken, hStore.claimed,
    hStore.answered, hStore.minted, ?_, hStore.resolved⟩
  · intro id' hGone
    rw [get?_removeJob]
    split
    · rfl
    · exact hStore.gone id' hGone
  · intro id' file hJob
    rw [get?_removeJob] at hJob
    split at hJob
    · cases hJob
    · exact hStore.jobs id' file hJob

theorem StoreOk.removeTaken
    (hStore : StoreOk codecs s)
    (id : String) :
    StoreOk codecs (s.removeTaken id) := by
  refine ⟨hStore.ordered, hStore.gone, ?_, ?_, hStore.answered,
    hStore.minted, hStore.jobs, hStore.resolved⟩
  · intro id' hDone
    rw [get?_removeTaken]
    split
    · rfl
    · exact hStore.untaken id' hDone
  · intro id' file hTaken
    rw [get?_removeTaken] at hTaken
    split at hTaken
    · cases hTaken
    · exact hStore.claimed id' file hTaken

theorem StoreOk.removeAnswer
    (hStore : StoreOk codecs s)
    (id : String) :
    StoreOk codecs (s.removeAnswer id) := by
  refine ⟨hStore.ordered, hStore.gone, hStore.untaken,
    hStore.claimed, ?_, hStore.minted, hStore.jobs,
    hStore.resolved⟩
  intro id' text hAnswer
  rw [get?_removeAnswer] at hAnswer
  split at hAnswer
  · cases hAnswer
  · exact hStore.answered id' text hAnswer

/- A claimed job is gone, and its claim returned. -/
theorem StoreOk.claim
    {id : String}
    {file : JobFile T}
    {job : JudgeJob}
    (hStore : StoreOk codecs s)
    (hJob : s.jobs.get? id = some file) :
    StoreOk codecs
      ((s.claim id file).returned (.took id job)) := by
  have hThere : ¬ Gone s.history id := by
    intro hGone
    rw [hStore.gone id hGone] at hJob
    cases hJob
  have hOther :
      ∀ id', .finished id' ∈ Return.took id job :: s.history →
        .finished id' ∈ s.history ∧ id' ≠ id := by
    intro id' hDone
    rcases List.mem_cons.mp hDone with hNew | hOld
    · cases hNew
    · refine ⟨hOld, ?_⟩
      rintro rfl
      exact hThere (Or.inr (Or.inr hOld))
  refine ⟨⟨hThere, hStore.ordered⟩, ?_, ?_, ?_, ?_, ?_, ?_, ?_⟩
  · intro id' hHistory
    change (s.claim id file).jobs.get? id' = none
    rw [get?_jobs_claim]
    split
    · rfl
    · rename_i hNe
      rcases gone_of_cons hHistory with hNew | hOld
      · rcases hNew with
          ⟨job', hMember⟩ | (⟨claimed, hMember⟩ | hMember) |
            hMember
        · cases List.mem_singleton.mp hMember
          exact absurd rfl hNe
        · cases List.mem_singleton.mp hMember
        · cases List.mem_singleton.mp hMember
        · cases List.mem_singleton.mp hMember
      · exact hStore.gone id' hOld
  · intro id' hDone
    rcases hOther id' hDone with ⟨hOld, hNe⟩
    change (s.claim id file).taken.get? id' = none
    rw [get?_taken_claim, if_neg hNe]
    exact hStore.untaken id' hOld
  · intro id' file' hTaken
    have hAt : (s.claim id file).taken.get? id' = some file' := hTaken
    rw [get?_taken_claim] at hAt
    split at hAt
    · rename_i hEq
      exact ⟨job, by rw [hEq]; exact List.mem_cons_self⟩
    · exact (hStore.claimed id' file' hAt).cons _
  · intro id' text hAnswer
    rcases hStore.answered id' text hAnswer with
      ⟨a, hText, hMember, hLate⟩
    refine ⟨a, hText, List.mem_cons_of_mem _ hMember, ?_⟩
    intro hDone
    exact (hLate (hOther id' hDone).1).cons _
  · intro r hMember id' hId
    rcases List.mem_cons.mp hMember with rfl | hOld
    · cases hId
      exact hStore.jobs id file hJob
    · exact hStore.minted r hOld id' hId
  · intro id' file' hAt
    have hOld : (s.claim id file).jobs.get? id' = some file' := hAt
    rw [get?_jobs_claim] at hOld
    split at hOld
    · cases hOld
    · exact hStore.jobs id' file' hOld
  · intro engine hMember
    rcases List.mem_cons.mp hMember with hNew | hOld
    · cases hNew
    · exact hStore.resolved engine hOld

/- A stored answer follows its job's claim. -/
theorem StoreOk.placeAnswer
    {id : String}
    {a : A}
    (hStore : StoreOk codecs s)
    (hTook : Took s.history id) :
    StoreOk codecs
      ((s.placeAnswer id (codecs.answer.encode a)).returned
        (.answered id a)) := by
  have hOld :
      ∀ id', .finished id' ∈ Return.answered id a :: s.history →
        .finished id' ∈ s.history := by
    intro id' hDone
    rcases List.mem_cons.mp hDone with hNew | hOld
    · cases hNew
    · exact hOld
  refine ⟨⟨hTook, hStore.ordered⟩, ?_, ?_, ?_, ?_, ?_,
    hStore.jobs, ?_⟩
  · intro id' hHistory
    rcases gone_of_cons hHistory with hNew | hOld
    · rcases hNew with
        ⟨job', hMember⟩ | (⟨claimed, hMember⟩ | hMember) |
          hMember
      all_goals cases List.mem_singleton.mp hMember
    · exact hStore.gone id' hOld
  · intro id' hDone
    exact hStore.untaken id' (hOld id' hDone)
  · intro id' file hTaken
    exact (hStore.claimed id' file hTaken).cons _
  · intro id' text hAnswer
    have hAt :
        (s.placeAnswer id
          (codecs.answer.encode a)).answers.get? id' =
            some text := hAnswer
    rw [get?_placeAnswer] at hAt
    split at hAt
    · rename_i hEq
      rw [hEq]
      refine ⟨a, Option.some.inj hAt, List.mem_cons_self, ?_⟩
      intro hDone
      exact
        (List.singleton_sublist.mpr (hOld id hDone)).cons_cons _
    · rcases hStore.answered id' text hAt with
        ⟨a', hText, hMember, hLate⟩
      refine ⟨a', hText, List.mem_cons_of_mem _ hMember, ?_⟩
      intro hDone
      exact (hLate (hOld id' hDone)).cons _
  · intro r hMember id' hId
    rcases List.mem_cons.mp hMember with rfl | hThere
    · cases hId
      rcases hTook with ⟨job, hJob⟩
      exact hStore.minted _ hJob id rfl
    · exact hStore.minted r hThere id' hId
  · intro engine hMember
    rcases List.mem_cons.mp hMember with hNew | hThere
    · cases hNew
    · exact hStore.resolved engine hThere

/- The resolution is published where there is none. -/
theorem StoreOk.publish
    (hStore : StoreOk codecs s)
    (hNone : s.resolution = none)
    (text : T) :
    StoreOk codecs (s.publish text) := by
  refine ⟨hStore.ordered, hStore.gone, hStore.untaken,
    hStore.claimed, hStore.answered, hStore.minted, hStore.jobs,
    ?_⟩
  intro engine hMember
  rcases hStore.resolved engine hMember with ⟨old, hOld, -⟩
  rw [hNone] at hOld
  cases hOld

end JudgeJobs

------------------------------------------------------------
-- Steps
------------------------------------------------------------

namespace JudgeJobs

variable {A T : Type} {codecs : Codecs A T}
variable {s s' : Store A T} {c c' d : Call A} {e : Choice}

/- A wait returns: withdrawn jobs are gone. -/
theorem StoreOk.waited
    {id : String}
    {w : Waited A}
    {claimed : Bool}
    (hStore : StoreOk codecs s)
    (hFollows : Follows (.waited id w claimed) s.history)
    (hMinted : id ∈ s.minted)
    (hGone :
      w = .unclaimed ∨ (w = .silent false ∧ claimed = true) →
        s.jobs.get? id = none) :
    StoreOk codecs (s.returned (.waited id w claimed)) := by
  apply hStore.returned hFollows
  · rintro id' ⟨⟩
    exact hMinted
  · intro id' hNew
    rcases hNew with
      ⟨job, hMember⟩ | (⟨claimed', hMember⟩ | hMember) | hMember
    · cases List.mem_singleton.mp hMember
    · cases List.mem_singleton.mp hMember
      exact hGone (Or.inl rfl)
    · cases List.mem_singleton.mp hMember
      exact hGone (Or.inr ⟨rfl, rfl⟩)
    · cases List.mem_singleton.mp hMember
  · intro id' hNew
    cases hNew
  · intro engine hNew
    cases hNew

theorem StoreOk.finished
    {id : String}
    (hStore : StoreOk codecs s)
    (hMinted : id ∈ s.minted)
    (hJob : s.jobs.get? id = none)
    (hTaken : s.taken.get? id = none)
    (hAnswer : s.answers.get? id = none) :
    StoreOk codecs (s.returned (.finished id)) := by
  have hFollows :
      Follows (.finished id : Return A) s.history := trivial
  apply hStore.returned hFollows
  · rintro id' ⟨⟩
    exact hMinted
  · intro id' hNew
    rcases hNew with
      ⟨job, hMember⟩ | (⟨claimed', hMember⟩ | hMember) | hMember
    · cases List.mem_singleton.mp hMember
    · cases List.mem_singleton.mp hMember
    · cases List.mem_singleton.mp hMember
    · cases List.mem_singleton.mp hMember
      exact hJob
  · rintro id' ⟨⟩
    exact ⟨hTaken, hAnswer⟩
  · intro engine hNew
    cases hNew

theorem StoreOk.resolve
    {engine : SessionEngine}
    {text : T}
    (hStore : StoreOk codecs s)
    (hText : s.resolution = some text)
    (hDecode : codecs.engine.decode text = some engine) :
    StoreOk codecs (s.returned (.resolved engine)) := by
  have hFollows :
      Follows (.resolved engine : Return A) s.history := trivial
  apply hStore.returned hFollows
  · intro id hId
    cases hId
  · intro id hNew
    rcases hNew with
      ⟨job, hMember⟩ | (⟨claimed', hMember⟩ | hMember) | hMember
    all_goals cases List.mem_singleton.mp hMember
  · intro id hNew
    cases hNew
  · rintro engine' ⟨⟩
    exact ⟨text, hText, hDecode⟩

/- What holds of the files after a step. -/
theorem storeOk_of_step
    (hStore : StoreOk codecs s)
    (hOwn : Own s c)
    (hStep : Step codecs s c e s' c') :
    StoreOk codecs s' := by
  have hRests := hOwn.rests
  cases hStep with
  | mint => exact hStore.mint _
  | place => exact hStore.placeJob hRests.1 (hOwn.minted _ rfl)
  | @readAnswer g claimed text a hAnswer hDecode =>
      apply hStore.waited _ (hOwn.minted _ rfl)
      · rintro (hOther | ⟨hOther, -⟩) <;> cases hOther
      · rcases hStore.answered g.id text hAnswer with
          ⟨a', hText, hMember, -⟩
        have hSame : a' = a := by
          rw [← hText, codecs.answer.decode_encode] at hDecode
          exact Option.some.inj hDecode
        rw [← hSame]
        exact hMember
  | @withdraw g file hJob =>
      have hFollows :
          Follows (.waited g.id .unclaimed true : Return A)
            s.history := by
        intro hTook
        rw [hStore.gone g.id (Or.inl hTook)] at hJob
        cases hJob
      apply (hStore.removeJob g.id).waited hFollows
        (hOwn.minted _ rfl)
      intro _
      rw [get?_removeJob, if_pos rfl]
  | @seeTaken g claimed =>
      have hFollows :
          Follows (.waited g.id (.silent true) claimed : Return A)
            s.history := trivial
      apply hStore.waited hFollows (hOwn.minted _ rfl)
      rintro (hOther | ⟨hOther, -⟩) <;> cases hOther
  | @seeAnswer g claimed taken =>
      apply hStore.waited _ (hOwn.minted _ rfl)
      · rintro (hOther | ⟨-, hClaimed⟩)
        · cases hOther
        · exact hRests.1.gone hClaimed
      · cases taken with
        | true => trivial
        | false =>
            cases claimed with
            | true => exact hRests.2 rfl
            | false => trivial
  | finishJob => exact hStore.removeJob _
  | finishTaken => exact hStore.removeTaken _
  | @finishAnswer g =>
      apply (hStore.removeAnswer g.id).finished
        (hOwn.minted _ rfl) hRests.2.1 hRests.2.2
      rw [get?_removeAnswer, if_pos rfl]
  | dropJob => exact hStore.removeJob _
  | rename hJob => exact hStore.claim hJob
  | store => exact hStore.placeAnswer hRests
  | resolveRead hText hDecode => exact hStore.resolve hText hDecode
  | link hNone =>
      exact
        (hStore.publish hNone _).resolve rfl
          (codecs.engine.decode_encode _)
  | reread hText hDecode => exact hStore.resolve hText hDecode
  | _ => exact hStore

/- What a call relies on at the place it comes to. -/
theorem rests_of_step
    (hStore : StoreOk codecs s)
    (hOwn : Own s c)
    (hFresh : Fresh s c)
    (hStep : Step codecs s c e s' c') :
    Rests s' c' := by
  have hRests := hOwn.rests
  cases hStep with
  | @mint g job =>
      have hNew := hFresh g job rfl
      refine ⟨?_, ?_⟩
      · intro r hMember hId
        exact hNew (hStore.minted r hMember g.id hId)
      · cases hAt : s.jobs.get? g.id with
        | none => exact hAt
        | some file => exact absurd (hStore.jobs g.id file hAt) hNew
  | @place g job =>
      refine ⟨?_, ?_, ?_⟩
      · intro hFinished
        exact hRests.1 _ hFinished rfl
      · intro hClaimed
        cases hClaimed
      · rintro ⟨job', hMember⟩
        exact absurd rfl (hRests.1 _ hMember)
  | readAnswer | seeTaken =>
      intro hFinished
      rcases List.mem_cons.mp hFinished with hNew | hOld
      · cases hNew
      · exact hRests.unfinished hOld
  | withdraw =>
      intro hFinished
      rcases List.mem_cons.mp hFinished with hNew | hOld
      · cases hNew
      · exact hRests.unfinished hOld
  | seeAnswer =>
      intro hFinished
      rcases List.mem_cons.mp hFinished with hNew | hOld
      · cases hNew
      · exact hRests.1.unfinished hOld
  | readNone | claimDue | claimNotDue | deadlineDue | again =>
      exact hRests
  | withdrawGone hGone =>
      exact ⟨hRests.unfinished, fun _ => hGone, hRests.held⟩
  | notTaken hNone =>
      refine ⟨hRests, ?_⟩
      intro _ hTook
      rcases hRests.held hTook with ⟨file, hTaken⟩
      rw [hNone] at hTaken
      cases hTaken
  | @finishJob g =>
      refine ⟨hRests, ?_⟩
      rw [get?_removeJob, if_pos rfl]
  | @finishTaken g =>
      refine ⟨hRests.1, hRests.2, ?_⟩
      rw [get?_removeTaken, if_pos rfl]
  | @answerTaken id a file hTaken =>
      exact hStore.claimed id file hTaken
  | _ => trivial

/- A step leaves to another call what that relies on. -/
theorem calm_of_step
    (hOwn : Own s c)
    (hApart : Apart c d)
    (hStep : Step codecs s c e s' c') :
    Calm s s' d := by
  have hRests := hOwn.rests
  have hOther :
      ∀ g : Gate, c.gate = some g.id → ∀ id ∈ d.gate,
        some g.id ≠ some id := by
    intro g hGate id hD hEq
    exact hApart g.id hGate (hEq ▸ hD)
  cases hStep with
  | mint => exact calm_mint _
  | place => exact calm_placeJob (hApart _ rfl)
  | readAnswer | seeTaken | seeAnswer =>
      exact (calm_refl s d).returned (hOther _ rfl)
  | withdraw =>
      exact (calm_removeJob _).returned (hOther _ rfl)
  | finishJob | dropJob => exact calm_removeJob _
  | finishTaken => exact calm_removeTaken (hApart _ rfl)
  | finishAnswer =>
      exact (calm_removeAnswer _).returned (hOther _ rfl)
  | rename hJob => exact calm_claim hJob
  | store => exact calm_placeAnswer hRests
  | resolveRead | reread =>
      exact (calm_refl s d).returned (by rintro id _ ⟨⟩)
  | link => exact (calm_publish _).returned (by rintro id _ ⟨⟩)
  | _ => exact calm_refl s d

/- The job of a gate is the one it had, or one of a new id. -/
theorem gate_of_step
    (hStep : Step codecs s c e s' c') :
    (∀ id ∈ c'.gate, c.gate = some id) ∨
      ∃ g job, c = .writing g job ∧ c' = .placing g job ∧
        s' = s.mint g.id := by
  cases hStep with
  | @mint g job => exact Or.inr ⟨g, job, rfl, rfl, rfl⟩
  | placeFail | finishAnswer | list | scanNone | scanNext
  | scanBad | scanJob | dropJob | stale | claimable | renameGone
  | rename | answerTaken | answerNone | store | storeFail
  | resolveRead | resolveNone | decideNone | decide | link
  | linkThere | linkFail | reread | rereadBad =>
      apply Or.inl
      intro id hGate
      cases hGate
  | _ => exact Or.inl (fun id hGate => hGate)

/- A call holds what it relies on after its own step. -/
theorem own_of_step
    (hStore : StoreOk codecs s)
    (hOwn : Own s c)
    (hFresh : Fresh s c)
    (hStep : Step codecs s c e s' c') :
    Own s' c' := by
  refine ⟨rests_of_step hStore hOwn hFresh hStep, ?_⟩
  intro id hGate
  rcases gate_of_step hStep with hSame | ⟨g, job, rfl, rfl, rfl⟩
  · have hOld := hOwn.minted id (hSame id hGate)
    cases hStep with
    | mint => exact List.mem_cons_of_mem _ hOld
    | _ => exact hOld
  · cases hGate
    exact List.mem_cons_self

/- Calls that were apart are apart after a step of one. -/
theorem apart_of_step
    (hFresh : Fresh s c)
    (hOther : Own s d)
    (hApart : Apart c d)
    (hStep : Step codecs s c e s' c') :
    Apart c' d := by
  intro id hGate hD
  rcases gate_of_step hStep with hSame | ⟨g, job, rfl, rfl, rfl⟩
  · exact hApart id (hSame id hGate) hD
  · cases hGate
    exact hFresh g job rfl (hOther.minted g.id hD)

end JudgeJobs

------------------------------------------------------------
-- Runs
------------------------------------------------------------

namespace JudgeJobs

variable {A T : Type}

/- Whether a gate that a move starts has an id of its own. -/
def distinctIds
    (s : Calls A T) : Move A → Bool
| .step i _ =>
    match s.calls[i]? with
    | some (.writing g _) => !s.shared.minted.contains g.id
    | _ => true
| _ => true

theorem storeOk_initial
    (codecs : Codecs A T)
    (resolution : Option T) :
    StoreOk codecs
      (initial resolution : Calls A T).shared := by
  refine ⟨trivial, ?_, ?_, ?_, ?_, ?_, ?_, ?_⟩
  · intro id _
    rfl
  · intro id _
    rfl
  · intro id file hTaken
    cases hTaken
  · intro id text hAnswer
    cases hAnswer
  · intro r hMember
    cases hMember
  · intro id file hJob
    cases hJob
  · intro engine hMember
    cases hMember

/- Every state of a run of distinct ids keeps the invariants. -/
theorem sound_of_mem_trace
    {codecs : Codecs A T}
    {resolution : Option T}
    {moves : List (Move A)}
    (hMoves :
      ∀ t ∈ (session codecs).trace (initial resolution) moves,
        distinctIds t.before t.input = true)
    {t : StepMachine.Turn (Calls A T) (Move A) Unit}
    (hMember :
      t ∈ (session codecs).trace (initial resolution) moves) :
    Interleave.Sound (StoreOk codecs) Own Apart t.after := by
  have hBoth :
      Interleave.Sound (StoreOk codecs) Own Apart t.before ∧
        Interleave.Sound (StoreOk codecs) Own Apart t.after := by
    refine
      Interleave.sound_of_mem_trace
        (fun s move => distinctIds s move = true)
        Apart.symm ?_ ?_ ?_ hMoves ?_ hMember
    · intro s request _ _
      have hGate : request.call.gate = none := by
        cases request <;> rfl
      refine ⟨⟨?_, ?_⟩, ?_⟩
      · cases request <;> trivial
      · simp [hGate]
      · intro d _ id hId
        rw [hGate] at hId
        cases hId
    · intro s i choice c shared c' hSound hOk hCall hAct
      have hStep := step_of_act hAct
      have hStore := hSound.shared
      have hOwn := hSound.own c (List.mem_of_getElem? hCall)
      have hFresh : Fresh s.shared c := by
        rintro g job rfl
        simp only [distinctIds, hCall] at hOk
        simpa using hOk
      refine ⟨storeOk_of_step hStore hOwn hStep,
        own_of_step hStore hOwn hFresh hStep, ?_⟩
      intro j d hOther hPlace
      have hOwnD := hSound.own d (List.mem_of_getElem? hPlace)
      have hApart :=
        hSound.apart i j c d (Ne.symm hOther) hCall hPlace
      exact
        ⟨own_of_calm hOwnD (calm_of_step hOwn hApart hStep),
          apart_of_step hFresh hOwnD hApart hStep⟩
    · intro s event hSound _
      refine ⟨?_, ?_⟩
      · have hStore := hSound.shared
        cases event with
        | tick _ | registerHost =>
            exact
              ⟨hStore.ordered, hStore.gone, hStore.untaken,
                hStore.claimed, hStore.answered, hStore.minted,
                hStore.jobs, hStore.resolved⟩
      · intro c hCall
        exact own_of_calm (hSound.own c hCall) (calm_world event)
    · exact Interleave.sound_nil (storeOk_initial codecs resolution)
  exact hBoth.2

end JudgeJobs

------------------------------------------------------------
-- Results
------------------------------------------------------------

namespace JudgeJobs

variable {A T : Type}

/-
  What the history and the files say of an exclusive
  handoff. The histories are newest first.

  A job is taken at most once; no take returns a job that
  was withdrawn, or that was silent and not taken when its
  gate had found it gone. An answer that a wait returned was
  given by a host, after the job was taken. A finished job
  has no pending and no claimed file, and an answer file only
  when an answer was stored after the finish. All that
  returned the session's engine returned the stored one.
-/
structure Handoff
    (codecs : Codecs A T)
    (s : Store A T) : Prop where
  once :
    s.history.Pairwise
      (fun r r' =>
        ∀ id job job', r = .took id job → r' ≠ .took id job')
  unclaimed :
    ∀ id claimed, .waited id .unclaimed claimed ∈ s.history →
      ∀ job, .took id job ∉ s.history
  silent :
    ∀ id, .waited id (.silent false) true ∈ s.history →
      ∀ job, .took id job ∉ s.history
  answered :
    ∀ id a claimed,
      .waited id (.answered a) claimed ∈ s.history →
        ∃ job,
          [.waited id (.answered a) claimed, .answered id a,
            .took id job].Sublist s.history
  finished :
    ∀ id, .finished id ∈ s.history →
      s.jobs.get? id = none ∧ s.taken.get? id = none ∧
        ∀ text, s.answers.get? id = some text →
          ∃ a, [.answered id a, .finished id].Sublist s.history
  resolved :
    ∀ e, .resolved e ∈ s.history →
      s.resolution.bind codecs.engine.decode = some e

/- A return follows what came before it. -/
theorem Ordered.follows
    {history : List (Return A)}
    (hOrdered : Ordered history)
    {r : Return A}
    (hMember : r ∈ history) :
    ∃ before, (r :: before).Sublist history ∧
      Follows r before ∧ Ordered before := by
  induction history with
  | nil => cases hMember
  | cons r' before ih =>
      rcases List.mem_cons.mp hMember with rfl | hOld
      · exact ⟨before, List.Sublist.refl _, hOrdered⟩
      · rcases ih hOrdered.2 hOld with ⟨first, hSublist, hRest⟩
        exact ⟨first, hSublist.cons r', hRest⟩

/- A claim follows no other claim and no withdrawal. -/
theorem Ordered.once
    {history : List (Return A)}
    (hOrdered : Ordered history) :
    history.Pairwise
      (fun r r' =>
        ∀ id job job', r = .took id job →
          r' ≠ .took id job') := by
  induction history with
  | nil => exact List.Pairwise.nil
  | cons r before ih =>
      refine List.Pairwise.cons ?_ (ih hOrdered.2)
      rintro r' hMember id job job' rfl rfl
      exact hOrdered.1 (Or.inl ⟨job', hMember⟩)

theorem Ordered.not_took
    {history : List (Return A)}
    (hOrdered : Ordered history)
    {id : String}
    (hWithdrawn : Withdrawn history id) :
    ¬ Took history id := by
  induction history with
  | nil =>
      rintro ⟨job, hMember⟩
      cases hMember
  | cons r before ih =>
      rintro ⟨job, hMember⟩
      rcases List.mem_cons.mp hMember with rfl | hOld
      · -- The claim is the last return: nothing withdrew it.
        refine hOrdered.1 (Or.inr (Or.inl ?_))
        rcases hWithdrawn with ⟨claimed, hThere⟩ | hThere
        · rcases List.mem_cons.mp hThere with hNew | hBefore
          · cases hNew
          · exact Or.inl ⟨claimed, hBefore⟩
        · rcases List.mem_cons.mp hThere with hNew | hBefore
          · cases hNew
          · exact Or.inr hBefore
      · have hTook : Took before id := ⟨job, hOld⟩
        rcases hWithdrawn with ⟨claimed, hThere⟩ | hThere
        · rcases List.mem_cons.mp hThere with rfl | hBefore
          · exact hOrdered.1 hTook
          · exact ih hOrdered.2 (Or.inl ⟨claimed, hBefore⟩) hTook
        · rcases List.mem_cons.mp hThere with rfl | hBefore
          · exact hOrdered.1 hTook
          · exact ih hOrdered.2 (Or.inr hBefore) hTook

/- The chain from a claim to the answer a gate returns. -/
theorem Ordered.answered
    {history : List (Return A)}
    (hOrdered : Ordered history)
    {id : String}
    {a : A}
    {claimed : Bool}
    (hMember : .waited id (.answered a) claimed ∈ history) :
    ∃ job,
      [.waited id (.answered a) claimed, .answered id a,
        .took id job].Sublist history := by
  rcases hOrdered.follows hMember with
    ⟨first, hWaited, hFollows, hFirst⟩
  rcases hFirst.follows hFollows with
    ⟨second, hAnswered, hTook, -⟩
  rcases hTook with ⟨job, hJob⟩
  have hLast : [.took id job].Sublist second :=
    List.singleton_sublist.mpr hJob
  have hRest := (hLast.cons_cons (.answered id a)).trans hAnswered
  exact
    ⟨job,
      (hRest.cons_cons (.waited id (.answered a) claimed)).trans
        hWaited⟩

/- The handoff is exclusive in every run of distinct ids. -/
theorem handoff
    {codecs : Codecs A T}
    {resolution : Option T}
    {moves : List (Move A)}
    (hMoves :
      ∀ t ∈ (session codecs).trace (initial resolution) moves,
        distinctIds t.before t.input = true) :
    ∀ t ∈ (session codecs).trace (initial resolution) moves,
      Handoff codecs t.after.shared := by
  intro t hMember
  have hStore := (sound_of_mem_trace hMoves hMember).shared
  have hOrdered := hStore.ordered
  refine ⟨hOrdered.once, ?_, ?_, ?_, ?_, ?_⟩
  · intro id claimed hWaited job hTook
    exact
      hOrdered.not_took (Or.inl ⟨claimed, hWaited⟩) ⟨job, hTook⟩
  · intro id hWaited job hTook
    exact hOrdered.not_took (Or.inr hWaited) ⟨job, hTook⟩
  · intro id a claimed hWaited
    exact hOrdered.answered hWaited
  · intro id hDone
    refine ⟨hStore.gone id (Or.inr (Or.inr hDone)),
      hStore.untaken id hDone, ?_⟩
    intro text hAnswer
    rcases hStore.answered id text hAnswer with
      ⟨a, -, -, hLate⟩
    exact ⟨a, hLate hDone⟩
  · intro engine hResolved
    rcases hStore.resolved engine hResolved with
      ⟨text, hText, hDecode⟩
    rw [hText]
    exact hDecode

/- Files that hold what was written in them. -/
inductive Text
| job (job : JudgeJob)
| answer (answer : String)
| engine (engine : SessionEngine)

def plain : Codecs String Text where
  job :=
    { encode := .job
      decode := fun
        | .job job => some job
        | _ => none
      decode_encode := fun _ => rfl }
  answer :=
    { encode := .answer
      decode := fun
        | .answer answer => some answer
        | _ => none
      decode_encode := fun _ => rfl }
  engine :=
    { encode := .engine
      decode := fun
        | .engine engine => some engine
        | _ => none
      decode_encode := fun _ => rfl }

def someJob : JudgeJob where
  model := "m"
  system := "s"
  prompt := "p"
  maxTokens := 160
  timeoutMs := 2000

/- A job that is taken, answered and finished. -/
def answeredRun : List (Move String) :=
  [.start (.gate ⟨"1", 5, 9⟩ someJob), .step 0 .go, .step 0 .go,
    .start .take, .step 1 .go, .step 1 .go, .step 1 .go,
    .step 1 .go, .start (.answer "1" "a"), .step 2 .go,
    .step 2 .go, .step 0 .go, .step 0 .go, .step 0 .go,
    .step 0 .go]

theorem handoff_answeredRun :
    ((session plain).trace (initial none) answeredRun).length =
        15 ∧
      ∀ t ∈ (session plain).trace (initial none) answeredRun,
        Handoff plain t.after.shared :=
  ⟨rfl, handoff (by decide)⟩

/- Whether a call has returned. -/
def Call.ended : Call A → Bool
| .writeFailed | .finished | .took _ _ | .tookNone | .answered
| .noJob | .answerFailed | .resolved _ | .unkept _
| .unresolved => true
| _ => false

/- A deadline before the claim window, and a take after it. -/
def silentThenTaken : List (Move String) :=
  [.start (.gate ⟨"1", 5, 0⟩ someJob), .step 0 .go, .step 0 .go,
    .step 0 .go, .step 0 .go, .step 0 .go, .step 0 .go,
    .step 0 .go, .start .take, .step 1 .go, .step 1 .go,
    .step 1 .go, .step 1 .go]

/- An answer checked before its job's finish, stored after. -/
def answeredLate : List (Move String) :=
  [.start (.gate ⟨"1", 0, 0⟩ someJob), .step 0 .go, .step 0 .go,
    .start .take, .step 1 .go, .step 1 .go, .step 1 .go,
    .step 1 .go, .start (.answer "1" "a"), .step 2 .go,
    .step 0 .go, .step 0 .go, .step 0 .go, .step 0 .go,
    .step 0 .go, .step 0 .go, .step 0 .go, .step 0 .go,
    .step 2 .go]

/-
  A silent job that is not taken may be taken after, and a
  finished job may leave its answer.
-/
theorem not_exclusive :
    ((∀ t ∈
          (session plain).trace (initial none) silentThenTaken,
          distinctIds t.before t.input = true) ∧
        ∃ t ∈
          (session plain).trace (initial none) silentThenTaken,
          .waited "1" (.silent false) false ∈
              t.after.shared.history ∧
            .took "1" someJob ∈ t.after.shared.history) ∧
      (∀ t ∈ (session plain).trace (initial none) answeredLate,
          distinctIds t.before t.input = true) ∧
        ∃ t ∈ (session plain).trace (initial none) answeredLate,
          (∀ c ∈ t.after.calls, c.ended = true) ∧
            .finished "1" ∈ t.after.shared.history ∧
              (t.after.shared.answers.get? "1").isSome = true := by
  decide

end JudgeJobs
