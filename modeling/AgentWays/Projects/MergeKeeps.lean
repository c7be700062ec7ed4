import AgentWays.Projects.Merge

/-
  A merge of two projects loses no history, whatever step
  fails: each file stays under its name in one of the two
  directories, but for a superseded leftover, and the index
  that takes the place of both holds their entries.

  Key definitions include:
    * `Projects.Superseded`
    * `Projects.FilesKept`
    * `Projects.EntriesKept`

  Main declarations:
    * `Projects.entriesKept`
    * `Projects.mergesKeep`
-/

------------------------------------------------------------
-- Entries
------------------------------------------------------------

namespace Projects

open Json (Tree)

/- The entries of an index as it is in its file. -/
def entriesIn
    (j : JsonText)
    (node : Option Node) : List Tree :=
  entriesOf (loadIndex j node true)

/-
  An index holds the entries of two: each with no id, and
  the last with each id, the moved project's over the other.
-/
structure EntriesKept
    (j : JsonText)
    (w : World)
    (old new : Option Node)
    (data : Tree) : Prop where
  only :
    ∀ e ∈ entriesOf data,
      e ∈ entriesIn j old ∨ e ∈ entriesIn j new
  once : ((entriesOf data).filterMap sessionId).Nodup
  moved :
    w.fails .readOld = false →
      ∀ earlier e later,
        entriesIn j old = earlier ++ e :: later →
          sessionId e = none ∨
              (∀ d ∈ later, sessionId d ≠ sessionId e) →
            e ∈ entriesOf data
  others :
    w.fails .readNew = false →
      ∀ earlier e later,
        entriesIn j new = earlier ++ e :: later →
          sessionId e = none ∨
              ((∀ d ∈ later, sessionId d ≠ sessionId e) ∧
                ∀ d ∈ entriesIn j old,
                  sessionId d ≠ sessionId e) →
            e ∈ entriesOf data

theorem isObject_of_mem_entriesOf
    {data e : Tree}
    (hMember : e ∈ entriesOf data) :
    isObject e = true := by
  unfold entriesOf at hMember
  split at hMember
  · exact (List.mem_filter.mp hMember).2
  · cases hMember

theorem isObject_loadIndex
    (j : JsonText)
    (node : Option Node)
    (reads : Bool) :
    isObject (loadIndex j node reads) = true := by
  unfold loadIndex
  split
  · split
    · rename_i bytes mtime hReads
      cases hParse : (j.parse bytes).filter isObject with
      | none => rfl
      | some tree =>
          exact
            (Option.filter_eq_some_iff.mp hParse).2
    · rfl
  · rfl

theorem find?_putField
    (key : String)
    (value : Tree)
    (fields : List (String × Tree)) :
    (putField key value fields).find? (fun e => e.1 = key) =
      some (key, value) := by
  induction fields with
  | nil => simp [putField]
  | cons head rest ih =>
      unfold putField
      split
      · simp
      · rename_i hOther
        rw [List.find?_cons_of_neg (by simpa using hOther), ih]

theorem get?_setField
    {obj : Tree}
    (hObject : isObject obj = true)
    (key : String)
    (value : Tree) :
    get? (setField obj key value) key = some value := by
  cases obj with
  | obj fields => simp [setField, get?, find?_putField]
  | _ => cases hObject

/- The merged index has the entries of both, put one by one. -/
theorem entriesOf_mergeSessionsIndex
    (src : Tree)
    {dst : Tree}
    (hObject : isObject dst = true) :
    entriesOf (mergeSessionsIndex src dst) =
      Upsert.all sessionId (entriesOf dst ++ entriesOf src) := by
  unfold mergeSessionsIndex
  rw [entriesOf, get?_setField hObject]
  simp only
  rw [List.filter_eq_self]
  intro e hMember
  rcases List.mem_append.mp (Upsert.mem_of_mem_all hMember) with
    hDst | hSrc
  · exact isObject_of_mem_entriesOf hDst
  · exact isObject_of_mem_entriesOf hSrc

/- An index that cannot be read has no entries, or its own. -/
theorem mem_entriesIn_of_load
    {j : JsonText}
    {node : Option Node}
    {reads : Bool}
    {e : Tree}
    (hMember : e ∈ entriesOf (loadIndex j node reads)) :
    e ∈ entriesIn j node := by
  cases reads with
  | true => exact hMember
  | false =>
      have hEmpty : loadIndex j node false = .obj [] := by
        unfold loadIndex
        split <;> rfl
      rw [hEmpty] at hMember
      cases hMember

theorem entriesKept
    (j : JsonText)
    (w : World)
    (old new : Option Node) :
    EntriesKept j w old new
      (mergeSessionsIndex
        (loadIndex j old (!w.fails .readOld))
        (loadIndex j new (!w.fails .readNew))) := by
  have hEntries :=
    entriesOf_mergeSessionsIndex
      (loadIndex j old (!w.fails .readOld))
      (isObject_loadIndex j new (!w.fails .readNew))
  refine ⟨?_, ?_, ?_, ?_⟩
  · intro e hMember
    rw [hEntries] at hMember
    rcases List.mem_append.mp
        (Upsert.mem_of_mem_all hMember) with
      hNew | hOld
    · exact Or.inr (mem_entriesIn_of_load hNew)
    · exact Or.inl (mem_entriesIn_of_load hOld)
  · rw [hEntries]
    exact Upsert.nodup_all sessionId _
  · intro hReads earlier e later hSplit hLast
    have hOld :
        entriesOf (loadIndex j old (!w.fails .readOld)) =
          earlier ++ e :: later := by
      rw [hReads]
      exact hSplit
    rw [hEntries, hOld, ← List.append_assoc]
    exact Upsert.mem_all_of_last hLast
  · intro hReads earlier e later hSplit hLast
    have hNew :
        entriesOf (loadIndex j new (!w.fails .readNew)) =
          earlier ++ e :: later := by
      rw [hReads]
      exact hSplit
    rw [hEntries, hNew, List.append_assoc, List.cons_append]
    apply Upsert.mem_all_of_last
    refine hLast.imp_right ?_
    rintro ⟨hLater, hOther⟩ d hMember
    rcases List.mem_append.mp hMember with hIn | hOut
    · exact hLater d hIn
    · exact hOther d (mem_entriesIn_of_load hOut)

end Projects

------------------------------------------------------------
-- Files
------------------------------------------------------------

namespace Projects

variable {j : JsonFile} {w : World} {start : Dirs}

/- A leftover of state records beside a larger file. -/
def Superseded
    (j : JsonText)
    (node counterpart : Node) : Prop :=
  ∃ bytes mtime larger mtime',
    node = .file bytes mtime ∧
      counterpart = .file larger mtime' ∧
        bytes.length < larger.length ∧
          stateOnly j bytes = true

/- The target's index is the one merged of both. -/
def Merged
    (j : JsonFile)
    (w : World)
    (start s : Dirs) : Prop :=
  ∃ mtime,
    s.inNew sessionsIndex =
      some
        (.file
          (mergedText j w (start.inOld sessionsIndex)
            (start.inNew sessionsIndex))
          mtime)

/-
  What is kept of an item of the moved directory: the item,
  in one of the two, or one that it may be left out for.
-/
def OldKept
    (j : JsonFile)
    (w : World)
    (start s : Dirs)
    (name : String)
    (node : Node) : Prop :=
  s.inOld name = some node ∨
    s.inNew name = some node ∨
    (∃ counterpart,
      s.inNew name = some counterpart ∧
        Superseded j.toJsonText node counterpart) ∨
    node = .dir [] ∨
    (name = sessionsIndex ∧ Merged j w start s)

def NewKept
    (j : JsonFile)
    (w : World)
    (start s : Dirs)
    (name : String)
    (node : Node) : Prop :=
  s.inNew name = some node ∨
    (name = sessionsIndex ∧ Merged j w start s)

/-
  Each file of the two directories is under its name in one
  of them, as it was, but for superseded leftovers, empty
  directories, two indexes that were merged, and the name
  the merged one is written under at first.
-/
structure FilesKept
    (j : JsonFile)
    (w : World)
    (start s : Dirs) : Prop where
  old :
    ∀ name node,
      start.inOld name = some node →
        name ≠ tmpSibling sessionsIndex →
          OldKept j w start s name node
  new :
    ∀ name node,
      start.inNew name = some node →
        name ≠ tmpSibling sessionsIndex →
          w.fails (.exists name) = false →
            NewKept j w start s name node

theorem index_ne_tmp :
    sessionsIndex ≠ tmpSibling sessionsIndex := by
  decide

theorem superseded_of_isSome
    {j : JsonText}
    {src dst : Node}
    (hSome : (supersededRemnant j src dst).isSome) :
    Superseded j src dst := by
  unfold supersededRemnant at hSome
  split at hSome
  · rename_i bytes mtime larger mtime'
    split at hSome
    · cases hSome
    · rename_i hLength
      split at hSome
      · rename_i hState
        exact
          ⟨bytes, mtime, larger, mtime', rfl, rfl, by omega,
            hState⟩
      · cases hSome
  · cases hSome

theorem filesKept_self
    (start : Dirs) :
    FilesKept j w start start :=
  ⟨fun _ _ hOld _ => Or.inl hOld,
    fun _ _ hNew _ _ => Or.inl hNew⟩

/- A step that changes one name has to keep what is under it. -/
theorem FilesKept.step
    {s s' : Dirs}
    (hKept : FilesKept j w start s)
    (name : String)
    (hOthers :
      ∀ k, k ≠ name → k ≠ tmpSibling sessionsIndex →
        s'.inOld k = s.inOld k ∧ s'.inNew k = s.inNew k)
    (hOld :
      ∀ node, start.inOld name = some node →
        OldKept j w start s' name node)
    (hNew :
      ∀ node, start.inNew name = some node →
        name ≠ tmpSibling sessionsIndex →
          w.fails (.exists name) = false →
            NewKept j w start s' name node) :
    FilesKept j w start s' := by
  have hMerged :
      ∀ k, k ≠ name →
        k = sessionsIndex ∧ Merged j w start s →
          k = sessionsIndex ∧ Merged j w start s' := by
    rintro k hK ⟨rfl, mtime, hText⟩
    refine ⟨rfl, mtime, ?_⟩
    rw [(hOthers _ hK index_ne_tmp).2, hText]
  constructor
  · intro k node hStart hTmp
    by_cases hK : k = name
    · subst hK
      exact hOld node hStart
    · have hSame := hOthers k hK hTmp
      have hBefore := hKept.old k node hStart hTmp
      unfold OldKept at hBefore ⊢
      rw [hSame.1, hSame.2]
      exact
        hBefore.imp_right
          (Or.imp_right
            (Or.imp_right (Or.imp_right (hMerged k hK))))
  · intro k node hStart hTmp hExists
    by_cases hK : k = name
    · subst hK
      exact hNew node hStart hTmp hExists
    · have hSame := hOthers k hK hTmp
      have hBefore := hKept.new k node hStart hTmp hExists
      unfold NewKept at hBefore ⊢
      rw [hSame.2]
      exact hBefore.imp_right (hMerged k hK)

/- A step that changes no name but that of the written file. -/
theorem FilesKept.of_same
    {s s' : Dirs}
    (hKept : FilesKept j w start s)
    (hSame :
      ∀ k, k ≠ tmpSibling sessionsIndex →
        s'.inOld k = s.inOld k ∧ s'.inNew k = s.inNew k) :
    FilesKept j w start s' := by
  have hMerged :
      Merged j w start s → Merged j w start s' := by
    rintro ⟨mtime, hText⟩
    refine ⟨mtime, ?_⟩
    rw [(hSame _ index_ne_tmp).2, hText]
  constructor
  · intro k node hStart hTmp
    have hBefore := hKept.old k node hStart hTmp
    unfold OldKept at hBefore ⊢
    rw [(hSame k hTmp).1, (hSame k hTmp).2]
    exact
      hBefore.imp_right
        (Or.imp_right
          (Or.imp_right
            (Or.imp_right (And.imp_right hMerged))))
  · intro k node hStart hTmp hExists
    have hBefore := hKept.new k node hStart hTmp hExists
    unfold NewKept at hBefore ⊢
    rw [(hSame k hTmp).2]
    exact hBefore.imp_right (And.imp_right hMerged)

end Projects

------------------------------------------------------------
-- The Merge
------------------------------------------------------------

namespace Projects

variable {j : JsonFile} {w : World} {start : Dirs}
variable {m : Merging}

/- Both have an index, and the merge sees that they have. -/
def TwoIndexes
    (w : World)
    (m : Merging) : Prop :=
  m.old.get? sessionsIndex ≠ none ∧
    m.new.get? sessionsIndex ≠ none ∧
      w.fails .existsIndex = false

/- Two indexes that the merge sees are left to its end. -/
structure Ongoing
    (j : JsonFile)
    (w : World)
    (start : Dirs)
    (m : Merging) : Prop where
  kept : FilesKept j w start m.dirs
  only :
    ∀ name node,
      m.old.get? name = some node →
        start.inOld name = some node
  same :
    m.old.get? sessionsIndex ≠ none →
      m.new.get? sessionsIndex = start.inNew sessionsIndex
  pending : m.pending = true → TwoIndexes w m

/-
  An item is left, or removed as superseded, or moved to a
  name that is free as far as the merge can see.
-/
theorem mergeItem_cases
    (j : JsonFile)
    (w : World)
    (m : Merging)
    (name : String) :
    ((mergeItem j w m name).old = m.old ∧
        (mergeItem j w m name).new = m.new ∧
          ((mergeItem j w m name).pending = m.pending ∨
            TwoIndexes w m)) ∨
      ∃ item,
        m.old.get? name = some item ∧
          (mergeItem j w m name).old = m.old.erase name ∧
          (mergeItem j w m name).pending = m.pending ∧
          (name = sessionsIndex →
            m.new.get? name = none ∨
              w.fails .existsIndex = true) ∧
          ((∃ counterpart,
              m.new.get? name = some counterpart ∧
                Superseded j.toJsonText item counterpart ∧
                (mergeItem j w m name).new = m.new) ∨
            ((m.new.get? name = none ∨
                w.fails (.exists name) = true) ∧
              (mergeItem j w m name).new =
                m.new.insert name item)) := by
  cases hItem : m.old.get? name with
  | none =>
      refine Or.inl ?_
      simp only [mergeItem, hItem]
      exact ⟨trivial, trivial, Or.inl trivial⟩
  | some item =>
      by_cases hFailed : m.failed = true
      · refine Or.inl ?_
        simp only [mergeItem, hItem, if_pos hFailed]
        exact ⟨trivial, trivial, Or.inl trivial⟩
      by_cases hPending :
          name = sessionsIndex ∧ (m.new.get? name).isSome ∧
            !w.fails .existsIndex
      · refine Or.inl ?_
        simp only [mergeItem, hItem, if_neg hFailed,
          if_pos hPending]
        rcases hPending with ⟨rfl, hSome, hExists⟩
        refine ⟨trivial, trivial, Or.inr ⟨?_, ?_, ?_⟩⟩
        · rw [hItem]
          exact Option.some_ne_none item
        · exact Option.isSome_iff_ne_none.mp hSome
        · simpa using hExists
      have hIndex :
          name = sessionsIndex →
            m.new.get? name = none ∨
              w.fails .existsIndex = true := by
        intro hName
        by_contra hBoth
        apply hPending
        refine ⟨hName, ?_, ?_⟩
        · cases hAt : m.new.get? name with
          | none => exact absurd (Or.inl hAt) hBoth
          | some node => rfl
        · cases hExists : w.fails .existsIndex with
          | true => exact absurd (Or.inr hExists) hBoth
          | false => rfl
      by_cases hTarget :
          (m.new.get? name).isSome ∧ !w.fails (.exists name)
      · simp only [mergeItem, hItem, if_neg hFailed,
          if_neg hPending, if_pos hTarget]
        cases hAt : m.new.get? name with
        | none =>
            rw [hAt] at hTarget
            cases hTarget.1
        | some counterpart =>
            simp only [Option.bind_some]
            cases hRemnant :
                supersededRemnant j.toJsonText item
                  counterpart with
            | none => exact Or.inl ⟨rfl, rfl, Or.inl rfl⟩
            | some st =>
                simp only
                split
                · exact Or.inl ⟨rfl, rfl, Or.inl rfl⟩
                · refine
                    Or.inr
                      ⟨item, rfl, rfl, rfl, hAt ▸ hIndex,
                        Or.inl ⟨counterpart, rfl, ?_, rfl⟩⟩
                  apply superseded_of_isSome
                  rw [hRemnant]
                  rfl
      · simp only [mergeItem, hItem, if_neg hFailed,
          if_neg hPending, if_neg hTarget]
        split
        · exact Or.inl ⟨rfl, rfl, Or.inl rfl⟩
        · refine
            Or.inr
              ⟨item, rfl, rfl, rfl, hIndex, Or.inr ⟨?_, rfl⟩⟩
          by_contra hBoth
          apply hTarget
          constructor
          · cases hAt : m.new.get? name with
            | none => exact absurd (Or.inl hAt) hBoth
            | some node => rfl
          · cases hExists : w.fails (.exists name) with
            | true => exact absurd (Or.inr hExists) hBoth
            | false => rfl

/- What is in the moved directory was there at the start. -/
theorem Ongoing.item_eq
    {name : String}
    {item node : Node}
    (hOngoing : Ongoing j w start m)
    (hItem : m.old.get? name = some item)
    (hStart : start.inOld name = some node) :
    node = item := by
  have hOnly := hOngoing.only name item hItem
  rw [hStart] at hOnly
  exact Option.some.inj hOnly

/- An item that is taken from the moved directory. -/
theorem Ongoing.only_erase
    {name k : String}
    {node : Node}
    (hOngoing : Ongoing j w start m)
    (hGet : (m.old.erase name).get? k = some node) :
    start.inOld k = some node := by
  rw [KeyMap.get?_erase] at hGet
  split at hGet
  · cases hGet
  · exact hOngoing.only k node hGet

/- A step that leaves the two directories as they are. -/
theorem Ongoing.of_same
    {m' : Merging}
    (hOngoing : Ongoing j w start m)
    (hOld : m'.old = m.old)
    (hNew : m'.new = m.new)
    (hPending : m'.pending = m.pending ∨ TwoIndexes w m) :
    Ongoing j w start m' := by
  have hIndexes : TwoIndexes w m' ↔ TwoIndexes w m := by
    unfold TwoIndexes
    rw [hOld, hNew]
  refine ⟨?_, ?_, ?_, ?_⟩
  · refine hOngoing.kept.of_same ?_
    intro k _
    simp only [Merging.dirs, Dirs.inOld, Dirs.inNew, hOld,
      hNew]
    exact ⟨trivial, trivial⟩
  · rw [hOld]
    exact hOngoing.only
  · rw [hOld, hNew]
    exact hOngoing.same
  · intro hAfter
    rw [hIndexes]
    rcases hPending with hSame | hTwo
    · exact hOngoing.pending (hSame ▸ hAfter)
    · exact hTwo

/- A superseded item is removed. -/
theorem Ongoing.removed
    {m' : Merging}
    {name : String}
    {item counterpart : Node}
    (hOngoing : Ongoing j w start m)
    (hItem : m.old.get? name = some item)
    (hAt : m.new.get? name = some counterpart)
    (hSuperseded : Superseded j.toJsonText item counterpart)
    (hIndex :
      name = sessionsIndex → w.fails .existsIndex = true)
    (hOld : m'.old = m.old.erase name)
    (hNew : m'.new = m.new)
    (hPending : m'.pending = m.pending) :
    Ongoing j w start m' := by
  refine ⟨?_, ?_, ?_, ?_⟩
  · refine hOngoing.kept.step name ?_ ?_ ?_
    · intro k hK _
      simp [Merging.dirs, Dirs.inOld, Dirs.inNew, hOld, hNew,
        hK]
    · intro node hStart
      rw [hOngoing.item_eq hItem hStart]
      refine Or.inr (Or.inr (Or.inl ⟨counterpart, ?_, hSuperseded⟩))
      simp [Merging.dirs, Dirs.inNew, hNew, hAt]
    · intro node hStart hTmp hExists
      have hBefore :=
        hOngoing.kept.new name node hStart hTmp hExists
      unfold NewKept Merged at hBefore ⊢
      simpa only [Merging.dirs, Dirs.inNew, hNew] using hBefore
  · intro k node hGet
    rw [hOld] at hGet
    exact hOngoing.only_erase hGet
  · intro hSome
    rw [hOld, KeyMap.get?_erase] at hSome
    rw [hNew]
    refine hOngoing.same ?_
    intro hNone
    rw [hNone] at hSome
    simp at hSome
  · intro hAfter
    rw [hPending] at hAfter
    have hTwo := hOngoing.pending hAfter
    refine ⟨?_, by rw [hNew]; exact hTwo.2.1, hTwo.2.2⟩
    rw [hOld, KeyMap.get?_erase]
    split
    · rename_i hName
      have hFails := hIndex hName.symm
      rw [hTwo.2.2] at hFails
      cases hFails
    · exact hTwo.1

/- An item is moved, to a name that is free or unseen. -/
theorem Ongoing.moved
    {m' : Merging}
    {name : String}
    {item : Node}
    (hOngoing : Ongoing j w start m)
    (hItem : m.old.get? name = some item)
    (hFree :
      m.new.get? name = none ∨
        w.fails (.exists name) = true)
    (hIndex :
      name = sessionsIndex →
        m.new.get? name = none ∨ w.fails .existsIndex = true)
    (hOld : m'.old = m.old.erase name)
    (hNew : m'.new = m.new.insert name item)
    (hPending : m'.pending = m.pending) :
    Ongoing j w start m' := by
  refine ⟨?_, ?_, ?_, ?_⟩
  · refine hOngoing.kept.step name ?_ ?_ ?_
    · intro k hK _
      simp [Merging.dirs, Dirs.inOld, Dirs.inNew, hOld, hNew,
        hK]
    · intro node hStart
      rw [hOngoing.item_eq hItem hStart]
      refine Or.inr (Or.inl ?_)
      simp [Merging.dirs, Dirs.inNew, hNew]
    · -- nothing was under the name that the merge could see
      intro node hStart hTmp hExists
      rw [hExists] at hFree
      have hNone := hFree.resolve_right (by simp)
      have hBefore :=
        hOngoing.kept.new name node hStart hTmp hExists
      rcases hBefore with hSame | ⟨rfl, mtime, hText⟩
      · simp [Merging.dirs, Dirs.inNew, hNone] at hSame
      · simp [Merging.dirs, Dirs.inNew, hNone] at hText
  · intro k node hGet
    rw [hOld] at hGet
    exact hOngoing.only_erase hGet
  · intro hSome
    rw [hOld, KeyMap.get?_erase] at hSome
    rw [hNew, KeyMap.get?_insert]
    split
    · rename_i hName
      rw [if_pos hName] at hSome
      exact absurd rfl hSome
    · rename_i hName
      rw [if_neg hName] at hSome
      exact hOngoing.same hSome
  · intro hAfter
    rw [hPending] at hAfter
    have hTwo := hOngoing.pending hAfter
    have hName : ¬sessionsIndex = name := by
      intro hName
      rcases hIndex hName.symm with hNone | hFails
      · exact hTwo.2.1 (hName ▸ hNone)
      · rw [hTwo.2.2] at hFails
        cases hFails
    unfold TwoIndexes
    rw [hOld, hNew, KeyMap.get?_erase, KeyMap.get?_insert,
      if_neg hName, if_neg hName]
    exact hTwo

theorem Ongoing.mergeItem
    (hOngoing : Ongoing j w start m)
    (name : String) :
    Ongoing j w start (mergeItem j w m name) := by
  rcases mergeItem_cases j w m name with
    ⟨hOld, hNew, hPending⟩ |
      ⟨item, hItem, hOld, hPending, hIndex, hTarget⟩
  · exact hOngoing.of_same hOld hNew hPending
  · rcases hTarget with
      ⟨counterpart, hAt, hSuperseded, hNew⟩ | ⟨hFree, hNew⟩
    · refine
        hOngoing.removed hItem hAt hSuperseded ?_ hOld hNew
          hPending
      intro hName
      rcases hIndex hName with hNone | hFails
      · rw [hAt] at hNone
        cases hNone
      · exact hFails
    · exact
        hOngoing.moved hItem hFree hIndex hOld hNew hPending

theorem Ongoing.foldl
    (names : List String)
    (hOngoing : Ongoing j w start m) :
    Ongoing j w start
      (names.foldl (Projects.mergeItem j w) m) := by
  induction names generalizing m with
  | nil => exact hOngoing
  | cons name rest ih => exact ih (hOngoing.mergeItem name)

/- A write changes the index, if it works, or nothing else. -/
theorem writeIndex_cases
    (w : World)
    (new : Dir)
    (text : Bytes) :
    ((writeIndex w new text).2 = false ∧
        ∀ k, k ≠ tmpSibling sessionsIndex →
          (writeIndex w new text).1.get? k = new.get? k) ∨
      ((writeIndex w new text).2 = true ∧
        (∃ mtime,
          (writeIndex w new text).1.get? sessionsIndex =
            some (.file text mtime)) ∧
        ∀ k, k ≠ tmpSibling sessionsIndex →
          k ≠ sessionsIndex →
            (writeIndex w new text).1.get? k =
              new.get? k) := by
  unfold writeIndex
  simp only
  split
  · exact Or.inl ⟨rfl, fun _ _ => rfl⟩
  · split
    · refine Or.inl ⟨rfl, ?_⟩
      intro k hTmp
      simp only
      split <;> simp [hTmp]
    · split
      · refine Or.inl ⟨rfl, ?_⟩
        intro k hTmp
        simp [hTmp]
      · rename_i bytes mtime hAt
        refine Or.inr ⟨rfl, ⟨mtime, by simp⟩, ?_⟩
        intro k hTmp hIndex
        simp [hTmp, hIndex]
      · refine Or.inr ⟨rfl, ⟨w.now, by simp⟩, ?_⟩
        intro k hTmp hIndex
        simp [hTmp, hIndex]

/- The two indexes become the one merged of them. -/
theorem filesKept_mergeIndex
    (hOngoing : Ongoing j w start m)
    (hPending : m.pending = true) :
    FilesKept j w start (mergeIndex j w m).dirs := by
  have hTwo := hOngoing.pending hPending
  have hNew := hOngoing.same hTwo.1
  rcases Option.ne_none_iff_exists'.mp hTwo.1 with ⟨item, hItem⟩
  have hStart := hOngoing.only sessionsIndex item hItem
  have hText :
      mergedText j w (m.old.get? sessionsIndex)
          (m.new.get? sessionsIndex) =
        mergedText j w (start.inOld sessionsIndex)
          (start.inNew sessionsIndex) := by
    rw [hItem, hNew, hStart]
  unfold mergeIndex
  simp only [hText]
  rcases writeIndex_cases w m.new
      (mergedText j w (start.inOld sessionsIndex)
        (start.inNew sessionsIndex)) with
    ⟨hFailed, hSame⟩ | ⟨hWritten, ⟨mtime, hIndex⟩, hSame⟩
  · rw [hFailed]
    refine hOngoing.kept.of_same ?_
    intro k hTmp
    exact ⟨rfl, hSame k hTmp⟩
  · rw [hWritten]
    simp only [Bool.not_true, Bool.false_eq_true, if_false]
    generalize
      writeIndex w m.new
        (mergedText j w (start.inOld sessionsIndex)
          (start.inNew sessionsIndex)) = written
      at hIndex hSame
    -- with the index written, only the old one is left to go
    have hMerged :
        ∀ old, Merged j w start
          { old := some old, new := some written.1 } :=
      fun _ => ⟨mtime, hIndex⟩
    have hStep :
        ∀ old : Dir,
          (∀ k, k ≠ sessionsIndex →
            old.get? k = m.old.get? k) →
          FilesKept j w start
            { old := some old, new := some written.1 } := by
      intro old hOld
      refine hOngoing.kept.step sessionsIndex ?_ ?_ ?_
      · intro k hK hTmp
        exact ⟨hOld k hK, hSame k hTmp hK⟩
      · intro node _
        exact Or.inr (Or.inr (Or.inr (Or.inr ⟨rfl, hMerged old⟩)))
      · intro node _ _ _
        exact Or.inr ⟨rfl, hMerged old⟩
    split
    · split
      · exact hStep m.old (fun _ _ => rfl)
      · refine hStep (m.old.erase sessionsIndex) ?_
        intro k hK
        simp [hK]
    · exact hStep m.old (fun _ _ => rfl)

theorem mergeIndex_old
    (j : JsonFile)
    (w : World)
    (m : Merging) :
    (mergeIndex j w m).old = m.old ∨
      (mergeIndex j w m).old = m.old.erase sessionsIndex := by
  unfold mergeIndex
  simp only
  split
  · exact Or.inl rfl
  · split
    · split
      · exact Or.inl rfl
      · exact Or.inr rfl
    · exact Or.inl rfl

/- The files are kept, the moved directory's in their place. -/
structure Kept
    (j : JsonFile)
    (w : World)
    (start s : Dirs) : Prop where
  files : FilesKept j w start s
  only :
    ∀ name node,
      s.inOld name = some node →
        start.inOld name = some node

theorem Ongoing.mergeItems
    (hOngoing : Ongoing j w start m) :
    Kept j w start (mergeItems j w m).dirs := by
  have hAll := hOngoing.foldl (w.listed .merge m.old)
  unfold Projects.mergeItems
  simp only
  split
  · rename_i hBoth
    refine
      ⟨filesKept_mergeIndex hAll
        (Bool.and_eq_true_iff.mp hBoth).2, ?_⟩
    intro name node hGet
    unfold Merging.dirs Dirs.inOld at hGet
    simp only [Option.bind_some] at hGet
    rcases mergeIndex_old j w _ with hSame | hErased
    · rw [hSame] at hGet
      exact hAll.only name node hGet
    · rw [hErased] at hGet
      exact hAll.only_erase hGet
  · exact ⟨hAll.kept, hAll.only⟩

/- Every step of a merge keeps the files. -/
theorem kept_mergeInto
    (j : JsonFile)
    (w : World)
    (start : Dirs) :
    Kept j w start (mergeInto j w start).1 := by
  have hNew :
      ∀ k,
        (some (start.new.getD .empty)).bind
            (fun d : Dir => d.get? k) =
          start.inNew k := by
    intro k
    unfold Dirs.inNew
    cases start.new <;> rfl
  have hMade :
      ∀ s : Dirs, s.old = start.old →
        s.new = some (start.new.getD .empty) →
          Kept j w start s := by
    intro s hOld hMade
    have hSame : ∀ k, s.inOld k = start.inOld k := by
      intro k
      unfold Dirs.inOld
      rw [hOld]
    refine ⟨(filesKept_self start).of_same ?_, ?_⟩
    · intro k _
      refine ⟨hSame k, ?_⟩
      unfold Dirs.inNew
      rw [hMade]
      exact hNew k
    · intro k node hGet
      rw [← hSame]
      exact hGet
  unfold mergeInto
  split
  · exact ⟨filesKept_self start, fun _ _ hGet => hGet⟩
  · simp only
    split
    · exact hMade _ rfl rfl
    · rename_i old hOld
      split
      · exact hMade _ rfl rfl
      · have hStart :
            Kept j w start
              { old := some old
                new := some (start.new.getD .empty) } :=
          hMade _ hOld.symm rfl
        have hOngoing :
            Ongoing j w start
              { old := old
                new := start.new.getD .empty
                done := []
                pending := false
                failed := false } :=
          ⟨hStart.files, hStart.only,
            fun _ => hNew sessionsIndex, nofun⟩
        have hKept := hOngoing.mergeItems
        generalize
          mergeItems j w
            { old := old
              new := start.new.getD .empty
              done := []
              pending := false
              failed := false } = m at hKept ⊢
        split
        · exact hKept
        · split
          · exact hKept
          · rename_i hEmpty
            split
            · exact hKept
            · -- the directory that goes is empty
              have hNone :=
                KeyMap.isEmpty_iff.mp
                  (by simpa using hEmpty : m.old.isEmpty = true)
              refine ⟨hKept.files.of_same ?_, nofun⟩
              intro k _
              exact ⟨(hNone k).symm, rfl⟩

end Projects

------------------------------------------------------------
-- The Sweep
------------------------------------------------------------

namespace Projects

variable {j : JsonFile} {w : World} {start : Dirs}

/- An item is left, or removed as superseded or empty. -/
theorem sweepItem_old
    (j : JsonFile)
    (w : World)
    (moved : List String)
    (new : Option Dir)
    (v : Sweep)
    (name : String) :
    (sweepItem j w moved new v name).old = v.old ∨
      ∃ item,
        v.old.get? name = some item ∧
          (sweepItem j w moved new v name).old =
            v.old.erase name ∧
          (item = .dir [] ∨
            ∃ counterpart,
              new.bind (fun d => d.get? name) =
                  some counterpart ∧
                Superseded j.toJsonText item counterpart) := by
  unfold sweepItem
  split
  · exact Or.inl rfl
  · rename_i paths hItem
    split
    · rename_i hBoth
      have hEmpty := (Bool.and_eq_true_iff.mp hBoth).1
      rw [List.isEmpty_iff] at hEmpty
      exact
        Or.inr
          ⟨.dir paths, hItem, rfl, Or.inl (by rw [hEmpty])⟩
    · exact Or.inl rfl
  · rename_i item hDir hItem
    simp only
    split
    · rename_i hAll
      simp only [Bool.and_eq_true] at hAll
      have hSome := hAll.1.1.2
      cases hAt : new.bind (fun d => d.get? name) with
      | none =>
          rw [hAt] at hSome
          cases hSome
      | some counterpart =>
          rw [hAt] at hSome
          exact
            Or.inr
              ⟨item, hItem, rfl,
                Or.inr
                  ⟨counterpart, rfl,
                    superseded_of_isSome hSome⟩⟩
    · refine Or.inl ?_
      unfold Sweep.leave
      split <;> rfl

/- The sweep takes from the moved directory alone. -/
theorem filesKept_sweep
    (moved names : List String)
    {new : Option Dir}
    {v : Sweep}
    (hKept :
      FilesKept j w start { old := some v.old, new := new })
    (hOnly :
      ∀ name node,
        v.old.get? name = some node →
          start.inOld name = some node) :
    FilesKept j w start
      { old :=
          some (names.foldl (sweepItem j w moved new) v).old
        new := new } := by
  induction names generalizing v with
  | nil => exact hKept
  | cons name rest ih =>
      rw [List.foldl_cons]
      rcases sweepItem_old j w moved new v name with
        hSame | ⟨item, hItem, hOld, hGone⟩
      · apply ih
        · rw [hSame]
          exact hKept
        · rw [hSame]
          exact hOnly
      · apply ih
        · rw [hOld]
          refine hKept.step name ?_ ?_ ?_
          · intro k hK _
            simp [Dirs.inOld, Dirs.inNew, hK]
          · intro node hStart
            have hItemStart := hOnly name item hItem
            rw [hStart] at hItemStart
            rw [Option.some.inj hItemStart]
            rcases hGone with hEmpty | hCounterpart
            · exact Or.inr (Or.inr (Or.inr (Or.inl hEmpty)))
            · exact Or.inr (Or.inr (Or.inl hCounterpart))
          · intro node hStart hTmp hExists
            exact hKept.new name node hStart hTmp hExists
        · intro k node hGet
          rw [hOld, KeyMap.get?_erase] at hGet
          split at hGet
          · cases hGet
          · exact hOnly k node hGet

theorem filesKept_verifyMove
    {oldName : String}
    {moved : List String}
    {s : Dirs}
    (hKept : Kept j w start s) :
    FilesKept j w start
      (verifyMove j w oldName moved s).dirs := by
  unfold verifyMove
  simp only
  split
  · exact hKept.files
  · rename_i old hOld
    split
    · exact hKept.files
    · split
      · exact hKept.files
      · simp only
        have hSome : s = { old := some old, new := s.new } := by
          rw [← hOld]
        have hFiles := hKept.files
        have hOnly := hKept.only
        rw [hSome] at hFiles hOnly
        have hSweep :=
          filesKept_sweep moved (w.listed .sweep old)
            (v := { old := old, stranded := [] })
            hFiles hOnly
        split
        · rename_i hBoth
          have hNone :=
            KeyMap.isEmpty_iff.mp
              (Bool.and_eq_true_iff.mp hBoth).1
          refine hSweep.of_same ?_
          intro k _
          exact ⟨(hNone k).symm, rfl⟩
        · exact hSweep

end Projects

------------------------------------------------------------
-- Main Theorem
------------------------------------------------------------

namespace Projects

/-
  A merge and its sweep, whatever step fails, keep every
  file; and an index written is that of the entries of both.
-/
theorem mergesKeep
    (j : JsonFile)
    (w : World)
    (oldName : String)
    (moved : List String)
    (start : Dirs) :
    FilesKept j w start
        (mergeProjects j w oldName moved start) ∧
      ∃ data,
        (mergedText j w (start.inOld sessionsIndex)
              (start.inNew sessionsIndex) =
            j.print data ∨
          mergedText j w (start.inOld sessionsIndex)
              (start.inNew sessionsIndex) =
            j.pretty data) ∧
          EntriesKept j.toJsonText w
            (start.inOld sessionsIndex)
            (start.inNew sessionsIndex) data := by
  constructor
  · have hMerge := kept_mergeInto j w start
    unfold mergeProjects
    split
    · rename_i s done hInto
      rw [hInto] at hMerge
      exact hMerge.files
    · rename_i s hInto
      rw [hInto] at hMerge
      exact filesKept_verifyMove hMerge
  · refine ⟨_, ?_, entriesKept j.toJsonText w _ _⟩
    unfold mergedText
    simp only
    split
    · exact Or.inr rfl
    · exact Or.inl rfl

/- A world in which every operation works. -/
def calm : World where
  fails _ := false
  left := []
  now := 0

/- A reader of no records. -/
def noRecords : JsonFile where
  parse _ := none
  print _ := []
  pretty _ := []

/- An empty file of notes beside one that is not. -/
def twoNotes : Dirs where
  old := some (.ofList [("notes.md", .file [] 0)])
  new :=
    some (.ofList [("notes.md", .file (bytesOf "x") 0)])

theorem not_mergesKeep_twoNotes :
    ¬ ∀ (j : JsonFile) (w : World) (oldName : String)
        (moved : List String) (start : Dirs),
        ∀ name node,
          start.inOld name = some node →
            (mergeProjects j w oldName moved start).inOld
                  name = some node ∨
              (mergeProjects j w oldName moved start).inNew
                  name = some node ∨
              RustText.endsWith name ".jsonl" = true ∨
              name = sessionsIndex := by
  intro hClaim
  have hNotes :=
    hClaim noRecords calm "-old" [] twoNotes "notes.md"
      (.file [] 0) (by decide)
  revert hNotes
  decide

end Projects
