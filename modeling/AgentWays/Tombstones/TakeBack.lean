import AgentWays.Tombstones.Reliance

/-
  Taking deletes back, over every interleaving.

  In a run where no mark is linked too late, a mark can be
  taken back: its batch has a record that lists it, an undo
  takes all of its batch and nothing of another, a failed
  delete leaves nothing, and a prune keeps the marks of what
  is there.

  Key definitions include:
    * `Tombstones.TakesBack`

  Main declarations:
    * `Tombstones.sound_of_step`
    * `Tombstones.takesBack`
-/

------------------------------------------------------------
-- A Call's Own Step
------------------------------------------------------------

namespace Tombstones

variable {s s' : Store} {c c' d : Call} {e : Choice}

/- What a step may ask of its move: a fresh id. -/
def Fresh
    (s : Store)
    (c : Call) : Prop :=
  ∀ pid key fresh, c = .checking pid [] (key :: fresh) →
    (s.now, pid) ∉ s.minted

/- What a step may ask of its move: a record for its mark. -/
def Backed
    (s : Store)
    (c : Call) : Prop :=
  ∀ batch since key todo marked,
    c = .linking batch since (key :: todo) marked →
      s.marks.get? key = none →
        ∃ file, s.records.get? batch = some file

theorem not_minted
    {pid : Nat}
    {fresh : List String}
    (hFresh : Fresh s (.checking pid [] fresh))
    (hSome : fresh ≠ []) :
    ¬ Minted s (batchId s.now pid) := by
  rintro ⟨p, hMember, hId⟩
  rcases p with ⟨millis, pid'⟩
  rcases batchId_inj hId with ⟨rfl, rfl⟩
  cases fresh with
  | nil => exact hSome rfl
  | cons key fresh => exact hFresh pid' key fresh rfl hMember

/- The list of a record just read is passed nowhere. -/
theorem passed_of_listed
    {b : String}
    {file : RecordFile}
    {list : List String}
    (hListed : Listed s b file list) :
    Passed s b list (list.filter validKey) := by
  refine ⟨?_, ?_⟩
  · intro file' keys hOther
    have hFile := hListed.1.symm.trans hOther.1
    cases hFile
    exact Record.keys.inj (hOther.2.symm.trans hListed.2)
  · intro k hMember hValid hDone
    exact absurd (List.mem_filter.mpr ⟨hMember, hValid⟩) hDone

/- A key that is no longer the batch's is passed. -/
theorem Passed.pass
    {b key : String}
    {list todo : List String}
    (hPassed : Passed s b list (key :: todo))
    (hOther : s.marks.get? key ≠ some b) :
    Passed s b list todo := by
  refine ⟨hPassed.same, ?_⟩
  intro k hMember hValid hDone
  by_cases hKey : k = key
  · rw [hKey]
    exact hOther
  · exact hPassed.bare k hMember hValid (by simp [hKey, hDone])

theorem Passed.unlink
    {b key : String}
    {list todo : List String}
    (hPassed : Passed s b list (key :: todo)) :
    Passed (s.unlink key) b list todo := by
  refine ⟨hPassed.same, ?_⟩
  intro k hMember hValid hDone
  rw [get?_marks_unlink]
  split
  · simp
  · rename_i hKey
    exact hPassed.bare k hMember hValid (by simp [hKey, hDone])

theorem Writing.step
    {b key : String}
    {since : Nat}
    {todo marked : List String}
    (hWriting : Writing s b since (key :: todo) marked) :
    Writing s b since todo marked := by
  refine ⟨hWriting.early, ?_, ?_, hWriting.noted⟩
  · intro file hRecord
    rcases hWriting.record file hRecord with
      ⟨hSince, list, hKeys, hTodo⟩
    exact ⟨hSince, list, hKeys,
      fun k hMember => hTodo k (List.mem_cons_of_mem _ hMember)⟩
  · intro k hMember
    exact hWriting.valid k (List.mem_cons_of_mem _ hMember)

theorem writing_of_write
    {b : String}
    {fresh : List String}
    (hBare : ∀ k, s.marks.get? k ≠ some b)
    (hValid : ∀ k ∈ fresh, validKey k = true) :
    Writing (s.write b (.keys fresh)) b s.now fresh [] := by
  refine ⟨?_, ?_, hValid, ?_⟩
  · have hGrace : 0 < grace := by decide
    exact Nat.lt_add_of_pos_right hGrace
  · intro file hRecord
    rw [get?_records_write, if_pos rfl] at hRecord
    cases hRecord
    exact ⟨rfl, fresh, rfl, fun _ hMember => hMember⟩
  · intro k hMark
    exact absurd hMark (hBare k)

theorem Writing.link
    {b key : String}
    {since : Nat}
    {todo marked : List String}
    (hWriting : Writing s b since todo marked) :
    Writing (s.link key b) b since todo (marked ++ [key]) := by
  refine ⟨hWriting.early, hWriting.record, hWriting.valid, ?_⟩
  intro k hMark
  rw [get?_marks_link] at hMark
  split at hMark
  · rename_i hKey
    simp [hKey]
  · exact List.mem_append_left _ (hWriting.noted k hMark)

theorem Writing.unlink
    {b key : String}
    {since : Nat}
    {todo : List String}
    (hWriting : Writing s b since [] (key :: todo)) :
    Writing (s.unlink key) b since [] todo := by
  refine ⟨hWriting.early, hWriting.record, hWriting.valid, ?_⟩
  intro k hMark
  rw [get?_marks_unlink] at hMark
  split at hMark
  · cases hMark
  · rename_i hKey
    have hNoted := hWriting.noted k hMark
    simpa [hKey] using hNoted

/- What a call relies on at the place it comes to. -/
theorem rests_of_step
    (hStore : StoreOk s)
    (hOwn : Own s c)
    (hFresh : Fresh s c)
    (hStep : Step s c e s' c') :
    Rests s' c' := by
  have hRests := hOwn.rests
  cases hStep with
  | checkFresh hValid =>
      intro k hMember
      rcases List.mem_append.mp hMember with hOld | hNew
      · exact hRests k hOld
      · rw [List.mem_singleton.mp hNew]
        exact hValid
  | checkSkip => exact hRests
  | @mint pid fresh hSome =>
      refine ⟨?_, ?_⟩
      · cases hAt : s.records.get? (batchId s.now pid) with
        | none => exact hAt
        | some file =>
            exact
              absurd (hStore.minted _ file hAt)
                (not_minted hFresh hSome)
      · intro k hMember
        exact hRests k (mem_sortedKeys.mp hMember)
  | record =>
      exact
        writing_of_write
          (hStore.bare_of_spent (spent_of_none hRests.1))
          hRests.2
  | recordFail => exact hRests.1
  | link hBare => exact (Writing.step hRests).link
  | linkSkip => exact Writing.step hRests
  | linkFail =>
      refine ⟨Writing.early hRests, ?_, by simp,
        Writing.noted hRests⟩
      intro file hRecord
      rcases Writing.record hRests file hRecord with
        ⟨hSince, list, hKeys, -⟩
      exact ⟨hSince, list, hKeys, by simp⟩
  | unlink => exact Writing.unlink hRests
  | unlinked =>
      change (s.drop _).records.get? _ = none
      rw [get?_records_drop, if_pos rfl]
  | readKeys hRecord => exact passed_of_listed ⟨hRecord, rfl⟩
  | unmark hOwned => exact Passed.unlink hRests
  | unmarkSkip hOther => exact Passed.pass hRests hOther
  | undone =>
      apply spent_of_none
      rw [get?_records_drop, if_pos rfl]
  | age =>
      intro file list hListed
      rw [hListed.1]
      rfl
  | judgeStub hRecord hStub =>
      intro file list hListed
      have hFile := hRecord.symm.trans hListed.1
      cases hFile
      rw [hListed.2] at hStub
      cases hStub
  | judgeKeys hRecord hKeys hOld =>
      exact passed_of_listed ⟨hRecord, hKeys⟩
  | ownNot hOther => exact Passed.pass hRests hOther
  | ownNone => exact hRests
  | _ => trivial

/- What holds of the store after a step. -/
theorem storeOk_of_step
    (hStore : StoreOk s)
    (hOwn : Own s c)
    (hBacked : e = .go → Backed s c)
    (hStep : Step s c e s' c') :
    StoreOk s' := by
  have hRests := hOwn.rests
  cases hStep with
  | mint => exact hStore.mint _
  | record =>
      exact
        hStore.write
          (hStore.bare_of_spent (spent_of_none hRests.1))
          (hOwn.wrote _ rfl) _
  | @link batch since key todo marked hBare =>
      rcases hBacked rfl batch since key todo marked rfl
        hBare with
        ⟨file, hRecord⟩
      rcases Writing.record hRests file hRecord with
        ⟨-, list, hKeys, hTodo⟩
      exact
        hStore.link ⟨hRecord, hKeys⟩
          (hTodo key List.mem_cons_self)
          (Writing.valid hRests key List.mem_cons_self)
  | unlink | unmark hOwned | sweep hGone =>
      exact hStore.unlink _
  | unlinked =>
      apply hStore.drop
      intro k hMark
      cases Writing.noted hRests k hMark
  | undone => exact hStore.drop (hStore.bare_of_passed hRests)
  | stub =>
      exact
        hStore.write (hStore.bare_of_passed hRests)
          (hOwn.known _ List.mem_cons_self) _
  | expire => exact hStore.drop (hStore.bare_of_spent hRests)
  | _ => exact hStore

end Tombstones

------------------------------------------------------------
-- The Other Calls
------------------------------------------------------------

namespace Tombstones

variable {s s' : Store} {c c' d : Call} {e : Choice}

/- What a link may ask of another call: to await its key. -/
def Awaited
    (s : Store)
    (c d : Call) : Prop :=
  ∀ batch since key todo marked,
    c = .linking batch since (key :: todo) marked →
      s.marks.get? key = none →
        ∀ list rest unmarked removed,
          d = .unmarking batch list rest unmarked removed →
            key ∈ rest

/- A call that counts on a batch's marks writes or passes. -/
theorem watches_cases
    {b : String}
    (hWatches : d.watches = some b) :
    d.writes = some b ∨ d.settled = some b ∨
      ∃ list todo unmarked removed,
        d = .unmarking b list todo unmarked removed := by
  cases d with
  | linking | unlinking => exact Or.inl hWatches
  | owning | stubbing => exact Or.inr (Or.inl hWatches)
  | unmarking =>
      cases hWatches
      exact Or.inr (Or.inr ⟨_, _, _, _, rfl⟩)
  | _ => cases hWatches

theorem batch_cases
    {b : String}
    (hBatch : d.batch = some b) :
    d.writes = some b ∨ b ∈ d.knows := by
  cases d with
  | recording | linking | unlinking | failed =>
      exact Or.inl hBatch
  | unmarking | undone | judging | owning | stubbing
  | expiring =>
      cases hBatch
      exact Or.inr List.mem_cons_self
  | _ => cases hBatch

/- A step leaves to another call what that relies on. -/
theorem calm_of_step
    (hOwn : Own s d)
    (hApart : Apart c d)
    (hAwaited : e = .go → Awaited s c d)
    (hStep : Step s c e s' c') :
    Calm s s' d := by
  cases hStep with
  | mint => exact calm_mint hOwn _
  | record =>
      refine calm_write hOwn (hApart.1.once _ rfl) ?_
      intro list _ hBatch
      rcases batch_cases hBatch with hWrites | hKnows
      · exact hApart.1.once _ rfl hWrites
      · exact hApart.1.unread _ rfl hKnows
  | @link batch since key todo marked hBare =>
      apply calm_link hOwn
      intro hWatches
      rcases watches_cases hWatches with
        hWrites | hSettled | ⟨list, rest, un, rem, rfl⟩
      · exact absurd hWrites (hApart.1.once _ rfl)
      · exact absurd hSettled (hApart.1.unsettled _ rfl)
      · exact
          hAwaited rfl batch since key todo marked rfl hBare
            list rest un rem rfl
  | unlink | unmark hOwned | sweep hGone =>
      exact calm_unlink hOwn _
  | unlinked | undone | expire => exact calm_drop hOwn _
  | stub =>
      refine calm_write hOwn ?_ ?_
      · intro hWrites
        exact hApart.2.unsettled _ hWrites rfl
      · intro list hKeys
        cases hKeys
  | _ => exact calm_refl hOwn

/- A call that has come to hold no more is as far apart. -/
theorem Apart.mono
    (hApart : Apart c d)
    (hWrites : ∀ b, c'.writes = some b → c.writes = some b)
    (hUnwritten :
      ∀ b, c'.unwritten = some b → c.unwritten = some b)
    (hKnows : ∀ b ∈ c'.knows, b ∈ c.knows)
    (hSettled :
      ∀ b, c'.settled = some b → c.settled = some b) :
    Apart c' d := by
  refine ⟨⟨?_, ?_, ?_⟩, ⟨?_, ?_, ?_⟩⟩
  · intro b hB
    exact hApart.1.once b (hWrites b hB)
  · intro b hB
    exact hApart.1.unread b (hUnwritten b hB)
  · intro b hB
    exact hApart.1.unsettled b (hWrites b hB)
  · intro b hB hB'
    exact hApart.2.once b hB (hWrites b hB')
  · intro b hB hB'
    exact hApart.2.unread b hB (hKnows b hB')
  · intro b hB hB'
    exact hApart.2.unsettled b hB (hSettled b hB')

/- What a step comes to hold anew. -/
inductive Gains (s : Store) : Call → Call → Prop
| mint {pid fresh keys}
    (hSome : fresh ≠ []) :
    Gains s (.checking pid [] fresh)
      (.recording (batchId s.now pid) keys)
| read {batch list todo unmarked removed file}
    (hRecord : s.records.get? batch = some file) :
    Gains s (.reading batch)
      (.unmarking batch list todo unmarked removed)
| list {now removed} :
    Gains s (.naming now removed) (.aging now s.batches removed)
| settle {now batch modified batches removed list todo file}
    (hListed : Listed s batch file list)
    (hOld : young now modified = false) :
    Gains s (.judging now batch modified batches removed)
      (.owning now batch list todo batches removed)
| less {c c' : Call}
    (hWrites : ∀ b, c'.writes = some b → c.writes = some b)
    (hUnwritten :
      ∀ b, c'.unwritten = some b → c.unwritten = some b)
    (hKnows : ∀ b ∈ c'.knows, b ∈ c.knows)
    (hSettled :
      ∀ b, c'.settled = some b → c.settled = some b) :
    Gains s c c'

theorem gains_of_step
    (hStep : Step s c e s' c') :
    Gains s c c' := by
  cases hStep with
  | mint hSome => exact .mint hSome
  | readKeys hRecord => exact .read hRecord
  | listed => exact .list
  | judgeKeys hRecord hKeys hOld =>
      exact .settle ⟨hRecord, hKeys⟩ hOld
  | judgeNext | ownNext | stub | stubFail | expire =>
      exact
        .less (fun _ hB => hB) (fun _ hB => hB)
          (fun _ hB => List.mem_cons_of_mem _ hB)
          (fun _ hB => by cases hB)
  | _ =>
      apply Gains.less
      all_goals
        simp [Call.writes, Call.unwritten, Call.knows,
          Call.settled]

/- A batch that a call writes is none that another settles. -/
theorem not_settled
    {now : Nat}
    {batch : String}
    {modified : Option Nat}
    {batches : List String}
    {removed : Nat}
    {file : RecordFile}
    {list : List String}
    (hOwn :
      Own s (.judging now batch modified batches removed))
    (hOther : Own s d)
    (hListed : Listed s batch file list)
    (hOld : young now modified = false) :
    d.writes ≠ some batch := by
  intro hWrites
  have hModified := hOwn.rests file list hListed
  have hNow := hOwn.clock now rfl
  have hRests := hOther.rests
  have hLate : ∀ since, file.modified = since →
      ¬ s.now < since + grace := by
    intro since hSince
    have hAged : grace ≤ now - file.modified := by
      simpa [young, hModified] using hOld
    have hGrace : 0 < grace := by decide
    omega
  cases d with
  | recording b fresh =>
      cases hWrites
      have hNone := hRests.1
      rw [hListed.1] at hNone
      cases hNone
  | failed b =>
      cases hWrites
      have hNone : s.records.get? batch = none := hRests
      rw [hListed.1] at hNone
      cases hNone
  | linking b since todo marked =>
      cases hWrites
      rcases Writing.record hRests file hListed.1 with ⟨hSince, -⟩
      exact hLate since hSince (Writing.early hRests)
  | unlinking b since todo =>
      cases hWrites
      rcases Writing.record hRests file hListed.1 with ⟨hSince, -⟩
      exact hLate since hSince (Writing.early hRests)
  | _ => cases hWrites

/- A record that is there is not still to be written. -/
theorem not_unwritten
    {b : String}
    {file : RecordFile}
    (hOther : Own s d)
    (hRecord : s.records.get? b = some file) :
    d.unwritten ≠ some b := by
  intro hUnwritten
  have hRests := hOther.rests
  cases d with
  | recording b' fresh =>
      cases hUnwritten
      have hNone := hRests.1
      rw [hRecord] at hNone
      cases hNone
  | _ => cases hUnwritten

theorem settled_known
    {b : String}
    (hSettled : d.settled = some b) :
    b ∈ d.knows := by
  cases d with
  | owning | stubbing =>
      cases hSettled
      exact List.mem_cons_self
  | _ => cases hSettled

/- Calls that were apart are apart after a step of one. -/
theorem apart_of_gains
    (hOwn : Own s c)
    (hFresh : Fresh s c)
    (hOther : Own s d)
    (hApart : Apart c d)
    (hGains : Gains s c c') :
    Apart c' d := by
  cases hGains with
  | less hWrites hUnwritten hKnows hSettled =>
      exact hApart.mono hWrites hUnwritten hKnows hSettled
  | @mint pid fresh keys hSome =>
      have hNew := not_minted hFresh hSome
      have hId :
          ∀ b, some (batchId s.now pid) = some b →
            ¬ Minted s b := by
        intro b hB
        rw [← Option.some.inj hB]
        exact hNew
      refine ⟨⟨?_, ?_, ?_⟩, ⟨?_, ?_, ?_⟩⟩
      · intro b hB hWrites
        exact hId b hB (hOther.wrote b hWrites)
      · intro b hB hKnows
        exact hId b hB (hOther.known b hKnows)
      · intro b hB hSettled
        exact hId b hB (hOther.known b (settled_known hSettled))
      · intro b hWrites hB
        exact hId b hB (hOther.wrote b hWrites)
      · intro b _ hB
        cases hB
      · intro b _ hB
        cases hB
  | @read batch list todo unmarked removed file hRecord =>
      refine ⟨⟨?_, ?_, ?_⟩, ⟨?_, ?_, ?_⟩⟩
      · intro b hB
        cases hB
      · intro b hB
        cases hB
      · intro b hB
        cases hB
      · intro b _ hB
        cases hB
      · intro b hB hKnows
        rw [List.mem_singleton.mp hKnows] at hB
        exact not_unwritten hOther hRecord hB
      · intro b _ hB
        cases hB
  | @list now removed =>
      refine ⟨⟨?_, ?_, ?_⟩, ⟨?_, ?_, ?_⟩⟩
      · intro b hB
        cases hB
      · intro b hB
        cases hB
      · intro b hB
        cases hB
      · intro b _ hB
        cases hB
      · intro b hB hKnows
        rcases mem_batches s b hKnows with ⟨file, hRecord⟩
        exact not_unwritten hOther hRecord hB
      · intro b _ hB
        cases hB
  | @settle now batch modified batches removed list todo file
      hListed hOld =>
      refine ⟨⟨?_, ?_, ?_⟩, ⟨?_, ?_, ?_⟩⟩
      · intro b hB
        cases hB
      · intro b hB
        cases hB
      · intro b hB
        cases hB
      · intro b _ hB
        cases hB
      · intro b hB hKnows
        exact hApart.2.unread b hB hKnows
      · rintro b hB ⟨⟩
        exact not_settled hOwn hOther hListed hOld hB

/- A call holds what it relies on after its own step. -/
theorem own_of_step
    (hStore : StoreOk s)
    (hOwn : Own s c)
    (hFresh : Fresh s c)
    (hStep : Step s c e s' c') :
    Own s' c' := by
  have hGains := gains_of_step hStep
  have hMinted : ∀ p ∈ s.minted, p ∈ s'.minted := by
    intro p hMember
    cases hStep with
    | mint => exact List.mem_cons_of_mem _ hMember
    | _ => exact hMember
  refine ⟨rests_of_step hStore hOwn hFresh hStep, ?_, ?_, ?_⟩
  · intro now hClock
    have hOld := hOwn.clock
    cases hStep with
    | swept =>
        cases hClock
        exact Nat.le_refl _
    | listed | age | judgeNext | judgeStub | judgeKeys
    | ownNext | ownNot | ownNone | stub | stubFail | expire =>
        exact hOld now hClock
    | _ => cases hClock
  · intro b hWrites
    cases hGains with
    | @mint pid fresh keys hSome =>
        have hId : batchId s.now pid = b := Option.some.inj hWrites
        cases hStep with
        | mint =>
            exact ⟨(s.now, pid), List.mem_cons_self, hId⟩
    | less hOld => exact (hOwn.wrote b (hOld b hWrites)).calm hMinted
    | _ => cases hWrites
  · intro b hKnows
    cases hGains with
    | mint => cases hKnows
    | read hRecord =>
        rw [List.mem_singleton.mp hKnows]
        exact (hStore.minted _ _ hRecord).calm hMinted
    | list =>
        rcases mem_batches s b hKnows with ⟨file, hRecord⟩
        exact (hStore.minted b file hRecord).calm hMinted
    | settle => exact (hOwn.known b hKnows).calm hMinted
    | less _ _ hOld => exact (hOwn.known b (hOld b hKnows)).calm hMinted

end Tombstones

------------------------------------------------------------
-- Runs
------------------------------------------------------------

namespace Tombstones

variable {s : Calls} {i : Nat} {e : Choice}

theorem fresh_of_timely
    {c : Call}
    (hTimely : timely s (.step i e) = true)
    (hCall : s.calls[i]? = some c) :
    Fresh s.shared c := by
  rintro pid key fresh rfl
  simp only [timely, hCall] at hTimely
  simpa using hTimely

theorem backed_of_linksInTime
    {c : Call}
    (hLinks : linksInTime s (.step i .go) = true)
    (hCall : s.calls[i]? = some c) :
    Backed s.shared c := by
  rintro batch since key todo marked rfl hBare
  simp only [linksInTime, hCall, hBare, Option.isSome_none,
    Bool.false_or, Bool.and_eq_true] at hLinks
  exact Option.isSome_iff_exists.mp hLinks.1

theorem awaited_of_linksInTime
    {c d : Call}
    (hLinks : linksInTime s (.step i .go) = true)
    (hCall : s.calls[i]? = some c)
    (hMember : d ∈ s.calls) :
    Awaited s.shared c d := by
  rintro batch since key todo marked rfl hBare list rest
    unmarked removed rfl
  simp only [linksInTime, hCall, hBare, Option.isSome_none,
    Bool.false_or, Bool.and_eq_true, List.all_eq_true] at hLinks
  simpa using hLinks.2 _ hMember

/- A call starts with nothing in hand. -/
theorem own_call
    (s : Store)
    (request : Request) :
    Own s request.call := by
  cases request with
  | mark pid keys =>
      refine ⟨?_, ?_, ?_, ?_⟩
      · intro k hMember
        cases hMember
      · intro now hClock
        cases hClock
      · intro b hWrites
        cases hWrites
      · intro b hKnows
        cases hKnows
  | undo batch =>
      refine ⟨trivial, ?_, ?_, ?_⟩
      · intro now hClock
        cases hClock
      · intro b hWrites
        cases hWrites
      · intro b hKnows
        cases hKnows
  | prune present =>
      refine ⟨trivial, ?_, ?_, ?_⟩
      · intro now hClock
        cases hClock
      · intro b hWrites
        cases hWrites
      · intro b hKnows
        cases hKnows

theorem apart_call
    (request : Request)
    (d : Call) :
    Apart request.call d := by
  have hNothing :
      request.call.writes = none ∧
        request.call.unwritten = none ∧
        request.call.knows = [] ∧
        request.call.settled = none := by
    cases request <;> exact ⟨rfl, rfl, rfl, rfl⟩
  rcases hNothing with
    ⟨hWrites, hUnwritten, hKnows, hSettled⟩
  refine ⟨⟨?_, ?_, ?_⟩, ⟨?_, ?_, ?_⟩⟩
  all_goals simp [hWrites, hUnwritten, hKnows, hSettled]

/-
  One move of a run keeps the store, and each call's place,
  when it is timely and links no mark too late.
-/
theorem sound_of_mem_trace
    {moves : List Move}
    (hMoves :
      ∀ t ∈ store.trace initial moves,
        timely t.before t.input = true ∧
          linksInTime t.before t.input = true)
    {t : StepMachine.Turn Calls Move Unit}
    (hMember : t ∈ store.trace initial moves) :
    Interleave.Sound StoreOk Own Apart t.before ∧
      Interleave.Sound StoreOk Own Apart t.after := by
  refine
    Interleave.sound_of_mem_trace
      (fun s move =>
        timely s move = true ∧ linksInTime s move = true)
      Apart.symm ?_ ?_ ?_ hMoves ?_ hMember
  · intro s request _ _
    exact ⟨own_call s.shared request,
      fun d _ => apart_call request d⟩
  · intro s i choice c shared c' hSound hOk hCall hAct
    have hStep := step_of_act hAct
    have hStore := hSound.shared
    have hOwn := hSound.own c (List.mem_of_getElem? hCall)
    have hFresh := fresh_of_timely hOk.1 hCall
    have hBacked : choice = .go → Backed s.shared c := by
      rintro rfl
      exact backed_of_linksInTime hOk.2 hCall
    refine ⟨storeOk_of_step hStore hOwn hBacked hStep,
      own_of_step hStore hOwn hFresh hStep, ?_⟩
    intro j d hOther hPlace
    have hMember := List.mem_of_getElem? hPlace
    have hOwnD := hSound.own d hMember
    have hApart :=
      hSound.apart i j c d (Ne.symm hOther) hCall hPlace
    have hAwaited : choice = .go → Awaited s.shared c d := by
      rintro rfl
      exact awaited_of_linksInTime hOk.2 hCall hMember
    exact
      ⟨own_of_calm hOwnD
          (calm_of_step hOwnD hApart hAwaited hStep),
        apart_of_gains hOwn hFresh hOwnD hApart
          (gains_of_step hStep)⟩
  · intro s d hSound hOk
    have hEarly := hOk.1
    simp only [timely, List.all_eq_true] at hEarly
    refine ⟨⟨hSound.shared.marked, hSound.shared.minted⟩, ?_⟩
    intro c hMember
    apply own_of_calm (hSound.own c hMember)
    apply calm_tick
    intro since hSince
    have hAll := hEarly c hMember
    rw [hSince] at hAll
    simpa using hAll
  · apply Interleave.sound_nil
    refine ⟨?_, ?_⟩
    · intro k b hMark
      cases hMark
    · intro b file hRecord
      cases hRecord

end Tombstones

------------------------------------------------------------
-- Results
------------------------------------------------------------

namespace Tombstones

abbrev Turn := StepMachine.Turn Calls Move Unit

/-
  A turn after which what is marked can be taken back.

  With no call at work each mark's batch has a record that
  is no stub and lists the key. An undo that has returned
  left no mark of its batch, and removes none of another; a
  failed delete left no mark and no record; and a prune
  removes no mark of a message that is there.
-/
structure TakesBack (t : Turn) : Prop where
  recorded :
    (∀ c ∈ t.after.calls, c.ended = true) →
      ∀ k b, t.after.shared.marks.get? k = some b →
        ∃ list modified,
          t.after.shared.records.get? b =
              some { content := .keys list, modified := modified } ∧
            k ∈ list
  undone :
    ∀ b unmarked removed,
      .undone b unmarked removed ∈ t.after.calls →
        ∀ k, t.after.shared.marks.get? k ≠ some b
  spares :
    ∀ i e c, t.input = .step i e →
      t.before.calls[i]? = some c → c.isUndo = true →
        ∀ k b, t.before.shared.marks.get? k = some b →
          c.batch ≠ some b →
            t.after.shared.marks.get? k = some b
  failed :
    ∀ b, .failed b ∈ t.after.calls →
      (∀ k, t.after.shared.marks.get? k ≠ some b) ∧
        t.after.shared.records.get? b = none
  keeps :
    ∀ i e c, t.input = .step i e →
      t.before.calls[i]? = some c → c.isPrune = true →
        ∀ k, (∀ present removed, c = .sweeping present removed →
            k ∈ present) →
          t.after.shared.marks.get? k =
            t.before.shared.marks.get? k

variable {s s' : Store} {c c' : Call} {e : Choice}

/- An undo removes a mark of its own batch alone. -/
theorem undo_spares
    (hStep : Step s c e s' c')
    (hUndo : c.isUndo = true)
    {k b : String}
    (hMark : s.marks.get? k = some b)
    (hOther : c.batch ≠ some b) :
    s'.marks.get? k = some b := by
  cases hStep with
  | @unmark batch list key todo unmarked removed hOwned =>
      have hKey : k ≠ key := by
        rintro rfl
        exact hOther (hOwned.symm.trans hMark)
      rw [get?_marks_unlink, if_neg hKey]
      exact hMark
  | undone => exact hMark
  | name | noName | readNone | readStub | readKeys | unmarkSkip
  | undoFail => exact hMark
  | _ => cases hUndo

/- A prune removes no mark of a message that is there. -/
theorem prune_keeps
    (hStep : Step s c e s' c')
    (hPrune : c.isPrune = true)
    {k : String}
    (hPresent :
      ∀ present removed, c = .sweeping present removed →
        k ∈ present) :
    s'.marks.get? k = s.marks.get? k := by
  cases hStep with
  | @sweep present removed key hGone =>
      have hKey : k ≠ key := by
        rintro rfl
        exact hGone (hPresent present removed rfl)
      rw [get?_marks_unlink, if_neg hKey]
  | stub | expire => rfl
  | sweepSkip | swept | listed | pruned | age | judgeNext
  | judgeStub | judgeKeys | ownNext | ownNot | ownNone
  | stubFail => rfl
  | _ => cases hPrune

/- A turn's step changes the store as its call's step does. -/
theorem turn_step
    {moves : List Move}
    {t : Turn}
    (hMember : t ∈ store.trace initial moves)
    {i : Nat}
    (hInput : t.input = .step i e)
    (hCall : t.before.calls[i]? = some c) :
    t.after.shared = t.before.shared ∨
      ∃ c', Step t.before.shared c e t.after.shared c' := by
  have hTurn := StepMachine.eq_turn_of_mem_trace hMember
  have hAfter :
      t.after =
        t.before.next Request.call act Store.tick t.input :=
    congrArg StepMachine.Turn.after hTurn
  rw [hAfter, hInput]
  unfold Interleave.Crew.next
  simp only [hCall]
  cases hAct : act t.before.shared c e with
  | none => exact Or.inl rfl
  | some next => exact Or.inr ⟨next.2, step_of_act hAct⟩

/-
  Every mark can be taken back in a run that keeps to the
  clock and links no mark too late.
-/
theorem takesBack
    {moves : List Move}
    (hMoves :
      ∀ t ∈ store.trace initial moves,
        timely t.before t.input = true ∧
          linksInTime t.before t.input = true) :
    ∀ t ∈ store.trace initial moves, TakesBack t := by
  intro t hMember
  have hAfter := (sound_of_mem_trace hMoves hMember).2
  have hStore := hAfter.shared
  refine ⟨?_, ?_, ?_, ?_, ?_⟩
  · intro _ k b hMark
    rcases hStore.marked k b hMark with
      ⟨file, list, hListed, hKey, -⟩
    rcases file with ⟨content, modified⟩
    have hContent : content = .keys list := hListed.2
    exact ⟨list, modified, hContent ▸ hListed.1, hKey⟩
  · intro b unmarked removed hCall
    have hOwn := hAfter.own _ hCall
    exact hStore.bare_of_spent hOwn.rests
  · intro i e c hInput hCall hUndo k b hMark hOther
    rcases turn_step hMember hInput hCall with
      hSame | ⟨c', hStep⟩
    · rw [hSame]
      exact hMark
    · exact undo_spares hStep hUndo hMark hOther
  · intro b hCall
    have hOwn := hAfter.own _ hCall
    have hNone : t.after.shared.records.get? b = none := hOwn.rests
    exact ⟨hStore.bare_of_spent (spent_of_none hNone), hNone⟩
  · intro i e c hInput hCall hPrune k hPresent
    rcases turn_step hMember hInput hCall with
      hSame | ⟨c', hStep⟩
    · rw [hSame]
    · exact prune_keeps hStep hPrune hPresent

/- A delete, then an undo of it and a prune. -/
def deleteAndUndo : List Move :=
  [.start (.mark 1 ["a"]), .step 0 .go, .step 0 .go,
    .step 0 .go, .step 0 .go, .world 1, .step 0 .go,
    .start (.undo none), .step 1 .go, .step 1 .go,
    .step 1 .go, .step 1 .go, .start (.prune []),
    .step 2 (.entry "a"), .step 2 .go]

theorem takesBack_deleteAndUndo :
    (store.trace initial deleteAndUndo).length = 15 ∧
      ∀ t ∈ store.trace initial deleteAndUndo, TakesBack t :=
  ⟨rfl, takesBack (by decide)⟩

/- An undo of the newest batch while its marks are linked. -/
def undoWhileLinked : List Move :=
  [.start (.mark 1 ["a", "b"]), .step 0 .go, .step 0 .go,
    .step 0 .go, .step 0 .go, .step 0 .go,
    .start (.undo none), .step 1 .go, .step 1 .go,
    .step 1 .go, .step 1 .go, .step 1 .go, .step 0 .go,
    .step 0 .go]

theorem not_takesBack_undoWhileLinked :
    (∀ t ∈ store.trace initial undoWhileLinked,
        timely t.before t.input = true) ∧
      ¬ ∀ t ∈ store.trace initial undoWhileLinked,
        TakesBack t := by
  have hLost :
      ∃ t ∈ store.trace initial undoWhileLinked,
        (∀ c ∈ t.after.calls, c.ended = true) ∧
          t.after.shared.marks.get? "b" =
              some "000000000000000-1" ∧
            t.after.shared.records.get? "000000000000000-1" =
              none := by
    decide
  refine ⟨by decide, ?_⟩
  intro hAll
  rcases hLost with ⟨t, hMember, hEnded, hMark, hNone⟩
  rcases (hAll t hMember).recorded hEnded "b" _ hMark with
    ⟨list, modified, hRecord, -⟩
  rw [hNone] at hRecord
  cases hRecord

end Tombstones
