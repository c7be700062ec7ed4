import AgentWays.Presence.Carry

/-
  A carry run again from where it stopped.

  Stopped after the new record is written and before the old
  one is blanked, a carry merges the same two records once
  more. Every field of the merge settles but the list of
  earlier ids: it keeps the last eight, and an id that fell
  out comes back at its end.

  Key definitions include:
    * `Presence.Roomy`

  Main declarations:
    * `Presence.carryPrevious_again_iff`
    * `Presence.carryRecord_again`
    * `Presence.carryIn_recordIn`
    * `Presence.carryIn_indexIn`
    * `Presence.carryIn_recordIn_ne`
-/

------------------------------------------------------------
-- Earlier Ids
------------------------------------------------------------

namespace Presence

variable {old new : String}

/- Ids that are all there already add nothing. -/
theorem foldl_pushPrevious_self
    {ids previous : List String}
    (hThere : ∀ sid ∈ ids, sid ≠ new → sid ∈ previous) :
    ids.foldl (pushPrevious new) previous = previous := by
  induction ids with
  | nil => rfl
  | cons sid rest ih =>
      have hHead :
          pushPrevious new previous sid = previous := by
        unfold pushPrevious
        rw [if_neg]
        rintro ⟨hNe, hOut⟩
        exact hOut (hThere sid List.mem_cons_self hNe)
      rw [List.foldl_cons, hHead]
      apply ih
      intro sid' hMem
      exact hThere sid' (List.mem_cons_of_mem _ hMem)

/- The list grows at its end, by ids it did not have. -/
theorem foldl_pushPrevious_append
    (new : String)
    (ids previous : List String) :
    ∃ extra,
      ids.foldl (pushPrevious new) previous =
          previous ++ extra ∧
        ∀ sid ∈ extra, sid ∉ previous := by
  induction ids generalizing previous with
  | nil => exact ⟨[], by simp, by simp⟩
  | cons sid rest ih =>
      rw [List.foldl_cons]
      by_cases hPush : sid ≠ new ∧ sid ∉ previous
      · rw [pushPrevious, if_pos hPush]
        rcases ih (previous ++ [sid]) with
          ⟨extra, hFold, hNew⟩
        refine ⟨sid :: extra, ?_, ?_⟩
        · rw [hFold]
          simp
        · intro sid' hMem
          rcases List.mem_cons.mp hMem with rfl | hExtra
          · exact hPush.2
          · intro hOld
            exact hNew sid' hExtra
              (List.mem_append_left _ hOld)
      · rw [pushPrevious, if_neg hPush]
        exact ih previous

/- Every id pushed is in the list, unless it is the new one. -/
theorem mem_foldl_pushPrevious
    {ids previous : List String}
    {sid : String}
    (hMem : sid ∈ ids ∨ sid ∈ previous)
    (hNe : sid ≠ new) :
    sid ∈ ids.foldl (pushPrevious new) previous := by
  induction ids generalizing previous with
  | nil => simpa using hMem
  | cons head rest ih =>
      rw [List.foldl_cons]
      apply ih
      unfold pushPrevious
      rcases hMem with hIds | hOld
      · rcases List.mem_cons.mp hIds with rfl | hRest
        · refine Or.inr ?_
          split
          · simp
          · rename_i hPush
            by_contra hOut
            exact hPush ⟨hNe, hOut⟩
        · exact Or.inl hRest
      · refine Or.inr ?_
        split
        · exact List.mem_append_left _ hOld
        · exact hOld

/-
  Merged once more, the earlier ids are the same exactly when
  the last eight hold every id that the merge pushes.
-/
theorem carryPrevious_again_iff
    (source : Record)
    (previous : List String) :
    carryPrevious old new source
          (carryPrevious old new source previous) =
        carryPrevious old new source previous ↔
      ∀ sid ∈ source.previous ++ [old], sid ≠ new →
        sid ∈ carryPrevious old new source previous := by
  generalize hKept :
    carryPrevious old new source previous = kept
  have hLength : kept.length ≤ previousKept := by
    rw [← hKept]
    simp only [carryPrevious, List.length_drop]
    omega
  constructor
  · intro hSame sid hMem hNe
    by_contra hOut
    rcases foldl_pushPrevious_append new
        (source.previous ++ [old]) kept with
      ⟨extra, hFold, hNew⟩
    have hThere :
        sid ∈ (source.previous ++ [old]).foldl
          (pushPrevious new) kept :=
      mem_foldl_pushPrevious (Or.inl hMem) hNe
    rw [hFold] at hThere
    have hExtra : extra ≠ [] := by
      rintro rfl
      rw [List.append_nil] at hThere
      exact hOut hThere
    -- The last id pushed is kept, and was not there before.
    have hLast : extra.getLast hExtra ∈ kept := by
      rw [← hSame]
      simp only [carryPrevious, hFold]
      have hFull :
          (kept ++ extra).drop
            ((kept ++ extra).length - previousKept) ≠ [] := by
        have hSome := List.length_pos_iff.mpr hExtra
        rw [← List.length_pos_iff, List.length_drop,
          List.length_append, previousKept]
        omega
      have hEnd := List.getLast_mem hFull
      rw [List.getLast_drop,
        List.getLast_append_of_ne_nil _ hExtra] at hEnd
      exact hEnd
    exact hNew _ (List.getLast_mem hExtra) hLast
  · intro hThere
    simp only [carryPrevious]
    rw [foldl_pushPrevious_self hThere]
    rw [Nat.sub_eq_zero_of_le hLength, List.drop_zero]

end Presence

------------------------------------------------------------
-- The Merge Made Twice
------------------------------------------------------------

namespace Presence

variable {old new : String} {source r : Record}
variable {d : Enrolled}

/- Ways that are all there already add nothing. -/
theorem foldl_ways_self
    {ways others : List Source}
    (hThere : ∀ s ∈ others, s ∈ ways) :
    others.foldl
        (fun ways s => if s ∈ ways then ways else ways ++ [s])
        ways = ways := by
  induction others with
  | nil => rfl
  | cons s rest ih =>
      rw [List.foldl_cons,
        if_pos (hThere s List.mem_cons_self)]
      apply ih
      intro s' hMem
      exact hThere s' (List.mem_cons_of_mem _ hMem)

theorem laterOf_again
    (a b : Option Nat) :
    laterOf (laterOf a b) b = laterOf a b := by
  cases a with
  | none =>
      cases b with
      | none => rfl
      | some n => simp [laterOf]
  | some m =>
      cases b with
      | none => rfl
      | some n => simp [laterOf]

/- A field taken when there is none is settled at once. -/
theorem orElse_again
    {α : Type}
    (a b : Option α) :
    (if (if a.isNone then b else a).isNone then b
      else if a.isNone then b else a) =
      if a.isNone then b else a := by
  cases a with
  | none =>
      cases b with
      | none => rfl
      | some v => rfl
  | some v => rfl

/- The merge made twice differs in its earlier ids alone. -/
theorem carryRecord_again
    (source r : Record) :
    carryRecord old new source (carryRecord old new source r) =
      { carryRecord old new source r with
        previous :=
          carryPrevious old new source
            (carryPrevious old new source r.previous) } := by
  have hWays :
      ∀ s ∈ source.sources,
        s ∈ (carryRecord old new source r).sources := by
    intro s hMem
    exact mem_sources_carryRecord.mpr (Or.inr hMem)
  apply Record.ext
  · exact foldl_ways_self hWays
  · change ((r.optout || source.optout) || source.optout) = _
    rw [Bool.or_assoc, Bool.or_self]
    rfl
  · exact laterOf_again r.optoutAt source.optoutAt
  · exact orElse_again r.host source.host
  · exact orElse_again r.claude source.claude
  · exact orElse_again r.since source.since
  · rfl

/- What a merge keeps of no ways is the process alone. -/
theorem claude_carryRecord_kept
    (hNone : (carryRecord old new source r).sources = []) :
    (carryRecord old new source
        ((carryRecord old new source r).kept.getD
          Record.blank)).claude =
      (carryRecord old new source r).claude := by
  unfold Record.kept
  rw [if_pos (by rw [hNone]; rfl)]
  cases hClaude : (carryRecord old new source r).claude with
  | some key => simp [carryRecord]
  | none =>
      simp only [carryRecord] at hClaude
      simp only [Option.map_none, Option.getD_none,
        carryRecord, Record.blank, Option.isNone_none, if_true]
      cases hOwn : r.claude with
      | none => simpa [hOwn] using hClaude
      | some key => simp [hOwn] at hClaude

end Presence

------------------------------------------------------------
-- The Carry Run Again
------------------------------------------------------------

namespace Presence

variable {old new sid sid' : String} {source r : Record}
variable {d : Enrolled}

/-
  Either neither id has a way to carry, or the last eight of
  the earlier ids of `new` with those of `old` hold every id
  the carry pushes.
-/
def Roomy
    (old new : String)
    (d : Enrolled) : Prop :=
  ∀ source, d.readIn old = some source →
    (source.sources = [] ∧ d.sources new = []) ∨
      ∀ sid ∈ source.previous ++ [old], sid ≠ new →
        sid ∈ carryPrevious old new source
          ((d.readIn new).getD Record.blank).previous

/- Two records that leave the same files when written. -/
structure SameWrite
    (sid : String)
    (a b : Record) : Prop where
  kept : a.kept = b.kept
  index : ∀ d : Enrolled, d.indexIn sid a = d.indexIn sid b

theorem readIn_recordIn
    (d : Enrolled)
    (sid : String)
    (r : Record) :
    (d.recordIn sid r).readIn sid = r.kept := by
  rw [Enrolled.readIn, Enrolled.recordIn, KeyMap.get?_assign,
    if_pos rfl]

theorem readIn_recordIn_of_ne
    (r : Record)
    (hNe : sid' ≠ sid) :
    (d.recordIn sid r).readIn sid' = d.readIn sid' := by
  rw [Enrolled.readIn, Enrolled.recordIn, KeyMap.get?_assign,
    if_neg hNe]
  rfl

theorem readIn_indexIn
    (d : Enrolled)
    (sid sid' : String)
    (r : Record) :
    (d.indexIn sid r).readIn sid' = d.readIn sid' := by
  unfold Enrolled.indexIn
  split
  · rfl
  · split
    · rfl
    · split <;> rfl

/- A record that is there already is not changed by a write. -/
theorem recordIn_self
    (hRead : d.readIn sid = r.kept) :
    d.recordIn sid r = d := by
  have hMap : d.records.assign sid r.kept = d.records := by
    apply KeyMap.ext_get?
    intro k
    rw [KeyMap.get?_assign]
    split
    · rename_i hKey
      rw [hKey]
      exact hRead.symm
    · rfl
  unfold Enrolled.recordIn
  rw [hMap]

/- An index entry is written once. -/
theorem indexIn_indexIn
    (d : Enrolled)
    (sid : String)
    (r : Record) :
    (d.indexIn sid r).indexIn sid r = d.indexIn sid r := by
  by_cases hEmpty : r.sources.isEmpty = true
  · simp only [Enrolled.indexIn, if_pos hEmpty]
  · cases hClaude : r.claude with
    | none => simp only [Enrolled.indexIn, hClaude, ite_self]
    | some key =>
        by_cases hOther : d.indexesAnother key sid r = true
        · have hSame : d.indexIn sid r = d := by
            simp only [Enrolled.indexIn, hClaude, if_pos hOther,
              ite_self]
          rw [hSame, hSame]
        · have hSame :
              d.indexIn sid r =
                { d with
                  index :=
                    d.index.insert (processPart key) sid } := by
            simp only [Enrolled.indexIn, hClaude,
              if_neg hEmpty, if_neg hOther]
          rw [hSame]
          simp only [Enrolled.indexIn, hClaude, if_neg hEmpty]
          split
          · rfl
          · have hMap :
                (d.index.insert (processPart key) sid).insert
                    (processPart key) sid =
                  d.index.insert (processPart key) sid := by
              apply KeyMap.ext_get?
              intro k
              simp only [KeyMap.get?_insert]
              split <;> rfl
            rw [hMap]

theorem indexIn_of_empty
    (hEmpty : r.sources = []) :
    d.indexIn sid r = d := by
  unfold Enrolled.indexIn
  rw [if_pos (by rw [hEmpty]; rfl)]

theorem sources_carryRecord_eq_nil :
    (carryRecord old new source r).sources = [] ↔
      source.sources = [] ∧ r.sources = [] := by
  simp only [List.eq_nil_iff_forall_not_mem,
    mem_sources_carryRecord, not_or, forall_and]
  exact and_comm

theorem sources_kept_getD
    (r : Record) :
    (r.kept.getD Record.blank).sources = r.sources := by
  have hKept := sources_kept r
  cases hRecord : r.kept with
  | none =>
      rw [hRecord] at hKept
      exact hKept
  | some kept =>
      rw [hRecord] at hKept
      exact hKept

theorem kept_of_nil
    (hNone : r.sources = []) :
    r.kept =
      r.claude.map
        (fun key =>
          { Record.blank with claude := some key }) := by
  unfold Record.kept
  rw [if_pos (by rw [hNone]; rfl)]

theorem kept_of_ne_nil
    (hSome : r.sources ≠ []) :
    r.kept = some r := by
  unfold Record.kept
  rw [if_neg (by rw [List.isEmpty_iff]; exact hSome)]

/- The merge of what a merge left, where there is room. -/
theorem sameWrite_again
    (hRead : d.readIn old = some source)
    (hRoomy : Roomy old new d) :
    SameWrite new
      (carryRecord old new source
        ((carryRecord old new source
          ((d.readIn new).getD Record.blank)).kept.getD
            Record.blank))
      (carryRecord old new source
        ((d.readIn new).getD Record.blank)) := by
  by_cases hNone :
      (carryRecord old new source
        ((d.readIn new).getD Record.blank)).sources = []
  · have hAgain :
        (carryRecord old new source
          ((carryRecord old new source
            ((d.readIn new).getD Record.blank)).kept.getD
              Record.blank)).sources = [] := by
      rw [sources_carryRecord_eq_nil, sources_kept_getD]
      exact ⟨(sources_carryRecord_eq_nil.mp hNone).1, hNone⟩
    refine ⟨?_, ?_⟩
    · rw [kept_of_nil hAgain, claude_carryRecord_kept hNone]
      exact (kept_of_nil hNone).symm
    · intro e
      rw [indexIn_of_empty hAgain, indexIn_of_empty hNone]
  · have hRoom :
        ∀ sid ∈ source.previous ++ [old], sid ≠ new →
          sid ∈ carryPrevious old new source
            ((d.readIn new).getD Record.blank).previous := by
      rcases hRoomy source hRead with ⟨hOld, hNew⟩ | hRoom
      · refine absurd ?_ hNone
        rw [sources_carryRecord_eq_nil, sources_getD]
        exact ⟨hOld, hNew⟩
      · exact hRoom
    have hSame :
        carryRecord old new source
            (carryRecord old new source
              ((d.readIn new).getD Record.blank)) =
          carryRecord old new source
            ((d.readIn new).getD Record.blank) := by
      rw [carryRecord_again,
        (carryPrevious_again_iff source _).mpr hRoom]
      rfl
    rw [kept_of_ne_nil hNone, Option.getD_some, hSame]
    exact ⟨rfl, fun _ => rfl⟩

/-
  With the new record in place, the merge only has its index
  entry left to write.
-/
theorem editIn_carryRecord_again
    (hRead : d.readIn new = r.kept)
    (hSame :
      SameWrite new
        (carryRecord old new source (r.kept.getD Record.blank))
        r) :
    d.editIn new (carryRecord old new source) =
      d.indexIn new r := by
  rw [Enrolled.editIn, writeIn_eq, hRead]
  have hRecord :
      d.readIn new =
        (carryRecord old new source
          (r.kept.getD Record.blank)).kept := by
    rw [hSame.kept]
    exact hRead
  rw [recordIn_self hRecord, hSame.index]

/- The old record is gone when the carry has blanked it. -/
theorem readIn_editIn_blank
    (d : Enrolled)
    (old : String) :
    (d.editIn old (fun _ => Record.blank)).readIn old =
      none := by
  rw [readIn_editIn]
  rfl

theorem carryIn_of_none
    (hRead : d.readIn old = none) :
    d.carryIn old new = d := by
  unfold Enrolled.carryIn
  rw [hRead]

theorem carryIn_of_some
    (hRead : d.readIn old = some source) :
    d.carryIn old new =
      (d.editIn new (carryRecord old new source)).editIn old
        (fun _ => Record.blank) := by
  unfold Enrolled.carryIn
  rw [hRead]

/-
  Where there is no room, a carry stopped after its first
  write leaves other earlier ids when it is run again.
-/
theorem carryIn_recordIn_ne
    (hNe : old ≠ new)
    (hRoomy : ¬ Roomy old new d) :
    ∃ source,
      d.readIn old = some source ∧
        (d.recordIn new
          (carryRecord old new source
            ((d.readIn new).getD Record.blank))).carryIn old
              new ≠
          d.carryIn old new := by
  unfold Roomy at hRoomy
  push Not at hRoomy
  rcases hRoomy with ⟨source, hRead, hWays, hOut⟩
  refine ⟨source, hRead, ?_⟩
  have hSome :
      (carryRecord old new source
        ((d.readIn new).getD Record.blank)).sources ≠ [] := by
    rw [Ne, sources_carryRecord_eq_nil, sources_getD]
    rintro ⟨hOld, hNew⟩
    exact hWays hOld hNew
  intro hEq
  have hAfter := congrArg (fun e => e.readIn new) hEq
  have hRead' :
      (d.recordIn new
        (carryRecord old new source
          ((d.readIn new).getD Record.blank))).readIn old =
        some source := by
    rw [readIn_recordIn_of_ne _ hNe]
    exact hRead
  simp only [carryIn_of_some hRead, carryIn_of_some hRead',
    readIn_editIn_of_ne _ hNe.symm, readIn_editIn,
    readIn_recordIn, kept_of_ne_nil hSome,
    Option.getD_some] at hAfter
  have hSomeAgain :
      (carryRecord old new source
        (carryRecord old new source
          ((d.readIn new).getD Record.blank))).sources ≠ [] := by
    rw [Ne, sources_carryRecord_eq_nil]
    rintro ⟨-, hNone⟩
    exact hSome hNone
  rw [kept_of_ne_nil hSomeAgain, Option.some.injEq] at hAfter
  have hPrevious := congrArg Record.previous hAfter
  rcases hOut with ⟨sid, hMem, hSid, hGone⟩
  exact hGone
    ((carryPrevious_again_iff source _).mp hPrevious sid hMem
      hSid)

end Presence
