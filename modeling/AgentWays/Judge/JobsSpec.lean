import AgentWays.Judge.Jobs

/-
  What one step of a call on a session can do, case by case.

  Key definitions include:
    * `JudgeJobs.Step`

  Main declarations:
    * `JudgeJobs.step_of_act`
-/

------------------------------------------------------------
-- Lookups
------------------------------------------------------------

namespace JudgeJobs

variable {A T : Type} (s : Store A T) (id id' : String)

@[simp] theorem get?_placeJob
    (text : T) :
    (s.placeJob id text).jobs.get? id' =
      if id' = id then
        some { text := text, modified := s.now }
      else s.jobs.get? id' :=
  KeyMap.get?_insert _ _ _ _

@[simp] theorem get?_removeJob :
    (s.removeJob id).jobs.get? id' =
      if id' = id then none else s.jobs.get? id' :=
  KeyMap.get?_erase _ _ _

@[simp] theorem get?_jobs_claim
    (file : JobFile T) :
    (s.claim id file).jobs.get? id' =
      if id' = id then none else s.jobs.get? id' :=
  KeyMap.get?_erase _ _ _

@[simp] theorem get?_taken_claim
    (file : JobFile T) :
    (s.claim id file).taken.get? id' =
      if id' = id then some file else s.taken.get? id' :=
  KeyMap.get?_insert _ _ _ _

@[simp] theorem get?_removeTaken :
    (s.removeTaken id).taken.get? id' =
      if id' = id then none else s.taken.get? id' :=
  KeyMap.get?_erase _ _ _

@[simp] theorem get?_placeAnswer
    (text : T) :
    (s.placeAnswer id text).answers.get? id' =
      if id' = id then some text else s.answers.get? id' :=
  KeyMap.get?_insert _ _ _ _

@[simp] theorem get?_removeAnswer :
    (s.removeAnswer id).answers.get? id' =
      if id' = id then none else s.answers.get? id' :=
  KeyMap.get?_erase _ _ _

end JudgeJobs

------------------------------------------------------------
-- Steps
------------------------------------------------------------

namespace JudgeJobs

variable {A T : Type}

/- The steps of a call, one case for each branch. -/
inductive Step (codecs : Codecs A T) (s : Store A T) :
    Call A → Choice → Store A T → Call A → Prop
| mint {g job} :
    Step codecs s (.writing g job) .go (s.mint g.id)
      (.placing g job)
| place {g job} :
    Step codecs s (.placing g job) .go
      (s.placeJob g.id (codecs.job.encode job))
      (.reading g false)
| placeFail {g job} :
    Step codecs s (.placing g job) .fail s .writeFailed
| readAnswer {g claimed text a}
    (hAnswer : s.answers.get? g.id = some text)
    (hDecode : codecs.answer.decode text = some a) :
    Step codecs s (.reading g claimed) .go
      (s.returned (.waited g.id (.answered a) claimed))
      (.finishJob g)
| readNone {g claimed} :
    Step codecs s (.reading g claimed) .go s
      (.claimDue g claimed)
| claimDue {g} :
    Step codecs s (.claimDue g false) .go s (.withdrawing g)
| claimNotDue {g claimed} :
    Step codecs s (.claimDue g claimed) .go s
      (.deadlineDue g claimed)
| withdraw {g file}
    (hJob : s.jobs.get? g.id = some file) :
    Step codecs s (.withdrawing g) .go
      ((s.removeJob g.id).returned
        (.waited g.id .unclaimed true))
      (.finishJob g)
| withdrawGone {g}
    (hGone : s.jobs.get? g.id = none) :
    Step codecs s (.withdrawing g) .go s (.deadlineDue g true)
| deadlineDue {g claimed} :
    Step codecs s (.deadlineDue g claimed) .go s
      (.lookTaken g claimed)
| again {g claimed} :
    Step codecs s (.deadlineDue g claimed) .go s
      (.reading g claimed)
| seeTaken {g claimed} :
    Step codecs s (.lookTaken g claimed) .go
      (s.returned (.waited g.id (.silent true) claimed))
      (.finishJob g)
| notTaken {g claimed}
    (hNone : s.taken.get? g.id = none) :
    Step codecs s (.lookTaken g claimed) .go s
      (.lookAnswer g claimed)
| seeAnswer {g claimed taken} :
    Step codecs s (.lookAnswer g claimed) .go
      (s.returned (.waited g.id (.silent taken) claimed))
      (.finishJob g)
| finishJob {g} :
    Step codecs s (.finishJob g) .go (s.removeJob g.id)
      (.finishTaken g)
| finishTaken {g} :
    Step codecs s (.finishTaken g) .go (s.removeTaken g.id)
      (.finishAnswer g)
| finishAnswer {g} :
    Step codecs s (.finishAnswer g) .go
      ((s.removeAnswer g.id).returned (.finished g.id))
      .finished
| list :
    Step codecs s .listing .go s (.scanning (pendingIds s))
| scanNone :
    Step codecs s (.scanning []) .go s .tookNone
| scanNext {id pending} :
    Step codecs s (.scanning (id :: pending)) .go s
      (.scanning pending)
| scanBad {id pending} :
    Step codecs s (.scanning (id :: pending)) .go s
      (.dropping id pending)
| scanJob {id job pending} :
    Step codecs s (.scanning (id :: pending)) .go s
      (.aging id job pending)
| dropJob {id pending} :
    Step codecs s (.dropping id pending) .go (s.removeJob id)
      (.scanning pending)
| stale {id job pending} :
    Step codecs s (.aging id job pending) .go s
      (.dropping id pending)
| claimable {id job pending} :
    Step codecs s (.aging id job pending) .go s
      (.renaming id job pending)
| renameGone {id job pending} :
    Step codecs s (.renaming id job pending) .go s
      (.scanning pending)
| rename {id job pending file}
    (hJob : s.jobs.get? id = some file) :
    Step codecs s (.renaming id job pending) .go
      ((s.claim id file).returned (.took id job))
      (.took id job)
| answerTaken {id a file}
    (hTaken : s.taken.get? id = some file) :
    Step codecs s (.answering id a) .go s (.storing id a)
| answerNone {id a} :
    Step codecs s (.answering id a) .go s .noJob
| store {id a} :
    Step codecs s (.storing id a) .go
      ((s.placeAnswer id (codecs.answer.encode a)).returned
        (.answered id a))
      .answered
| storeFail {id a} :
    Step codecs s (.storing id a) .fail s .answerFailed
| resolveRead {resolve text e}
    (hText : s.resolution = some text)
    (hDecode : codecs.engine.decode text = some e) :
    Step codecs s (.resolving resolve) .go
      (s.returned (.resolved e)) (.resolved e)
| resolveNone {resolve} :
    Step codecs s (.resolving resolve) .go s (.deciding resolve)
| decideNone {resolve} :
    Step codecs s (.deciding resolve) .go s
      (.unkept (resolve s.host))
| decide {resolve} :
    Step codecs s (.deciding resolve) .go s
      (.linking (resolve s.host))
| link {mine}
    (hNone : s.resolution = none) :
    Step codecs s (.linking mine) .go
      ((s.publish (codecs.engine.encode mine)).returned
        (.resolved mine))
      (.resolved mine)
| linkThere {mine} :
    Step codecs s (.linking mine) .go s .rereading
| linkFail {mine} :
    Step codecs s (.linking mine) .fail s .unresolved
| reread {text e}
    (hText : s.resolution = some text)
    (hDecode : codecs.engine.decode text = some e) :
    Step codecs s .rereading .go (s.returned (.resolved e))
      (.resolved e)
| rereadBad :
    Step codecs s .rereading .go s .unresolved

variable {codecs : Codecs A T} {s s' : Store A T}
variable {c c' : Call A} {e : Choice}

theorem step_of_gate
    (hAct : gate codecs s c e = some (s', c')) :
    Step codecs s c e s' c' := by
  unfold gate at hAct
  split at hAct
  · cases hAct
    exact .mint
  · cases hAct
    exact .place
  · cases hAct
    exact .placeFail
  · split at hAct
    · rename_i a hRead
      rcases Option.bind_eq_some_iff.mp hRead with
        ⟨text, hAnswer, hDecode⟩
      cases hAct
      exact .readAnswer hAnswer hDecode
    · cases hAct
      exact .readNone
  · split at hAct
    · rename_i g claimed hDue
      have hNot : claimed = false := by simpa using hDue.1
      cases hAct
      rw [hNot]
      exact .claimDue
    · cases hAct
      exact .claimNotDue
  · split at hAct
    · rename_i hSome
      rcases Option.isSome_iff_exists.mp hSome with ⟨file, hJob⟩
      cases hAct
      exact .withdraw hJob
    · rename_i hNone
      cases hAct
      exact .withdrawGone (by simpa using hNone)
  · split at hAct
    · cases hAct
      exact .deadlineDue
    · cases hAct
      exact .again
  · split at hAct
    · cases hAct
      exact .seeTaken
    · rename_i hNone
      cases hAct
      exact .notTaken (by simpa using hNone)
  · cases hAct
    exact .seeAnswer
  · cases hAct
    exact .finishJob
  · cases hAct
    exact .finishTaken
  · cases hAct
    exact .finishAnswer
  · cases hAct

theorem step_of_host
    (hAct : host codecs s c e = some (s', c')) :
    Step codecs s c e s' c' := by
  unfold host at hAct
  split at hAct
  · cases hAct
    exact .list
  · cases hAct
    exact .scanNone
  · split at hAct
    · cases hAct
      exact .scanNext
    · split at hAct
      · cases hAct
        exact .scanBad
      · cases hAct
        exact .scanJob
  · cases hAct
    exact .dropJob
  · split at hAct
    · cases hAct
      exact .stale
    · cases hAct
      exact .claimable
  · split at hAct
    · cases hAct
      exact .renameGone
    · rename_i file hJob
      cases hAct
      exact .rename hJob
  · split at hAct
    · rename_i hTaken
      rcases Option.isSome_iff_exists.mp hTaken.2 with
        ⟨file, hFile⟩
      cases hAct
      exact .answerTaken hFile
    · cases hAct
      exact .answerNone
  · cases hAct
    exact .store
  · cases hAct
    exact .storeFail
  · cases hAct

theorem step_of_resolveOnce
    (hAct : resolveOnce codecs s c e = some (s', c')) :
    Step codecs s c e s' c' := by
  unfold resolveOnce at hAct
  split at hAct
  · split at hAct
    · rename_i engine hRead
      rcases Option.bind_eq_some_iff.mp hRead with
        ⟨text, hText, hDecode⟩
      cases hAct
      exact .resolveRead hText hDecode
    · cases hAct
      exact .resolveNone
  · split at hAct
    · cases hAct
      exact .decideNone
    · cases hAct
      exact .decide
  · split at hAct
    · rename_i hNone
      cases hAct
      exact .link hNone
    · cases hAct
      exact .linkThere
  · cases hAct
    exact .linkFail
  · split at hAct
    · rename_i engine hRead
      rcases Option.bind_eq_some_iff.mp hRead with
        ⟨text, hText, hDecode⟩
      cases hAct
      exact .reread hText hDecode
    · cases hAct
      exact .rereadBad
  · cases hAct

/- Each step of a call is one of the cases. -/
theorem step_of_act
    (hAct : act codecs s c e = some (s', c')) :
    Step codecs s c e s' c' := by
  unfold act at hAct
  rcases Option.or_eq_some_iff.mp hAct with
    hGate | ⟨-, hRest⟩
  · exact step_of_gate hGate
  · rcases Option.or_eq_some_iff.mp hRest with
      hHost | ⟨-, hResolve⟩
    · exact step_of_host hHost
    · exact step_of_resolveOnce hResolve

end JudgeJobs
