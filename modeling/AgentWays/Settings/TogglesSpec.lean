import AgentWays.Fmt.Stamp
import AgentWays.Lib.Framing
import AgentWays.Lib.TextSpec
import AgentWays.Lib.Words
import AgentWays.Settings.Toggles

/-
  What a project's toggles say of a way: the winning toggle
  is read off the set of toggles, whatever their order; two
  keys overlap when some way is matched by both; and lint's
  replacement for an old key leaves every way as it was.

  Main declarations:
    * `Toggles.overlaps_iff`
    * `Toggles.way_toggled_off_iff`
    * `Toggles.advice_keeps_every_way`
-/

------------------------------------------------------------
-- Ids And Segments
------------------------------------------------------------

namespace Toggles

open RustText SegPattern

theorem segments_ne_nil
    (s : String) :
    segments s ≠ [] :=
  List.splitOn_ne_nil _ _

theorem slash_not_mem
    {s : String}
    {seg : Segment}
    (hMem : seg ∈ segments s) :
    '/' ∉ seg := by
  intro hIn
  have hNot :=
    Words.not_of_mem_splitOnP
      (by
        rw [segments, List.splitOn_eq_splitOnP] at hMem
        exact hMem) '/' hIn
  simp at hNot

/- An id is its segments, a slash apart. -/
theorem toList_eq
    (s : String) :
    s.toList = ['/'].intercalate (segments s) :=
  (List.intercalate_splitOn '/').symm

theorem eq_of_segments
    {a b : String}
    (hEq : segments a = segments b) :
    a = b := by
  rw [← String.toList_inj, toList_eq a, toList_eq b, hEq]

/- Segments without a slash are those of the id they make. -/
theorem segments_ofList
    {w : List Segment}
    (hNe : w ≠ [])
    (hFree : ∀ s ∈ w, '/' ∉ s) :
    segments (String.ofList (['/'].intercalate w)) = w := by
  unfold segments
  rw [String.toList_ofList]
  exact List.splitOn_intercalate '/' hFree hNe

theorem segments_append
    (a b : String) :
    segments (a ++ "/" ++ b) = segments a ++ segments b := by
  have hJoin :
      a ++ "/" ++ b =
        String.ofList
          (['/'].intercalate (segments a ++ segments b)) := by
    rw [← String.toList_inj, String.toList_ofList,
      String.toList_append, String.toList_append]
    rw [Framing.intercalate_append (segments_ne_nil a)
        (segments_ne_nil b),
      ← toList_eq, ← toList_eq]
    simp
  rw [hJoin, segments_ofList (by simp [segments_ne_nil])
    (fun s hMem => ?_)]
  rcases List.mem_append.mp hMem with hA | hB
  · exact slash_not_mem hA
  · exact slash_not_mem hB

------------------------------------------------------------
-- Overlapping Keys
------------------------------------------------------------

theorem lit_of_mem_pattern
    {key : String}
    {s : Segment}
    (hMem : .lit s ∈ pattern key) :
    '/' ∉ s := by
  obtain ⟨seg, hSeg, hPiece⟩ := List.mem_map.mp hMem
  unfold piece at hPiece
  split at hPiece
  · cases hPiece
  · split at hPiece
    · cases hPiece
    · cases hPiece
      exact slash_not_mem hSeg

/-
  Two keys overlap when some way's id is matched by both:
  the walk side by side misses none and invents none.
-/
theorem overlaps_iff
    (a b : String) :
    overlaps a b = true ↔
      ∃ wayId, toggleMatches a wayId = true ∧
        toggleMatches b wayId = true := by
  constructor
  · intro hMeets
    obtain ⟨w, hA, hB, hSpelled⟩ :=
      exists_word_of_meets (by simpa [overlaps] using hMeets)
    have hNe : w ≠ [] := by
      rintro rfl
      have hPattern : pattern a ≠ [] := by
        simp [pattern, segments_ne_nil]
      cases hCases : pattern a with
      | nil => exact hPattern hCases
      | cons x rest =>
          rw [hCases] at hA
          simp at hA
    have hFree : ∀ s ∈ w, '/' ∉ s := by
      intro s hMem
      rcases hSpelled s hMem with rfl | hLit | hLit
      · simp [default]
      · exact lit_of_mem_pattern hLit
      · exact lit_of_mem_pattern hLit
    refine ⟨String.ofList (['/'].intercalate w), ?_, ?_⟩
    · unfold toggleMatches
      rw [segments_ofList hNe hFree]
      exact hA
    · unfold toggleMatches
      rw [segments_ofList hNe hFree]
      exact hB
  · rintro ⟨wayId, hA, hB⟩
    exact meets_of_word hA hB

------------------------------------------------------------
-- The Winning Toggle
------------------------------------------------------------

/- A toggle that matches a way, and none does so closer. -/
def Top
    (toggles : List Toggle)
    (wayId : String)
    (t : Toggle) : Prop :=
  t ∈ toggles ∧ toggleMatches t.1 wayId = true ∧
    ∀ u ∈ toggles, toggleMatches u.1 wayId = true →
      toggleRank u.1 ≤ toggleRank t.1

theorem mem_topToggles
    {toggles : List Toggle}
    {wayId : String}
    {t : Toggle} :
    t ∈ topToggles toggles wayId ↔ Top toggles wayId t := by
  unfold topToggles Top
  rw [TopRanked.mem_tops]
  simp only [List.mem_filter, and_imp, and_assoc]

theorem winningToggle_eq_some
    {toggles : List Toggle}
    {wayId : String}
    {t : Toggle} :
    winningToggle toggles wayId = some t ↔
      Top toggles wayId t ∧ ∀ u, Top toggles wayId u →
        toggleOrder t ≤ toggleOrder u := by
  constructor
  · intro hWins
    exact ⟨mem_topToggles.mp (List.argmin_mem hWins),
      fun u hTop =>
        List.le_of_mem_argmin (mem_topToggles.mpr hTop) hWins⟩
  · rintro ⟨hTop, hLeast⟩
    have hMem := mem_topToggles.mpr hTop
    cases hWins : winningToggle toggles wayId with
    | none =>
        rw [winningToggle, List.argmin_eq_none] at hWins
        rw [hWins] at hMem
        cases hMem
    | some w =>
        have hLe := List.le_of_mem_argmin hMem hWins
        have hGe :=
          hLeast w (mem_topToggles.mp (List.argmin_mem hWins))
        have hEq := le_antisymm hGe hLe
        have hPair := congrArg ofLex hEq
        simp only [toggleOrder, ofLex_toLex,
          Prod.mk.injEq] at hPair
        exact congrArg some
          (Prod.ext hPair.2 hPair.1).symm

/- Only the toggles that match a way are asked about it. -/
theorem top_congr
    {first second : List Toggle}
    {wayId : String}
    (hSame :
      ∀ t, toggleMatches t.1 wayId = true →
        (t ∈ first ↔ t ∈ second))
    (t : Toggle) :
    Top first wayId t ↔ Top second wayId t := by
  constructor
  · rintro ⟨hMem, hMatch, hTop⟩
    exact ⟨(hSame t hMatch).mp hMem, hMatch,
      fun u hU hM => hTop u ((hSame u hM).mpr hU) hM⟩
  · rintro ⟨hMem, hMatch, hTop⟩
    exact ⟨(hSame t hMatch).mpr hMem, hMatch,
      fun u hU hM => hTop u ((hSame u hM).mp hU) hM⟩

theorem winningToggle_congr
    {first second : List Toggle}
    {wayId : String}
    (hSame :
      ∀ t, toggleMatches t.1 wayId = true →
        (t ∈ first ↔ t ∈ second)) :
    winningToggle first wayId =
      winningToggle second wayId := by
  refine Option.ext fun t => ?_
  rw [winningToggle_eq_some, winningToggle_eq_some]
  simp only [top_congr hSame]

theorem exists_winner
    {toggles : List Toggle}
    {wayId : String}
    {t : Toggle}
    (hTop : Top toggles wayId t) :
    ∃ w, winningToggle toggles wayId = some w := by
  cases hWins : winningToggle toggles wayId with
  | none =>
      rw [winningToggle, List.argmin_eq_none] at hWins
      have hMem := mem_topToggles.mpr hTop
      rw [hWins] at hMem
      cases hMem
  | some w => exact ⟨w, rfl⟩

/- Off wins over on among toggles equally close. -/
theorem wayToggledOff_iff
    {toggles : List Toggle}
    {wayId : String} :
    wayToggledOff toggles wayId = true ↔
      ∃ t, Top toggles wayId t ∧ t.2 = false := by
  unfold wayToggledOff
  constructor
  · intro hOff
    rw [Option.any_eq_true] at hOff
    obtain ⟨w, hWins, hW⟩ := hOff
    exact ⟨w, (winningToggle_eq_some.mp hWins).1,
      by simpa using hW⟩
  · rintro ⟨t, hTop, hT⟩
    obtain ⟨w, hWins⟩ := exists_winner hTop
    have hLe := (winningToggle_eq_some.mp hWins).2 t hTop
    rw [hWins, Option.any_some]
    rw [toggleOrder, toggleOrder, hT,
      Prod.Lex.toLex_le_toLex] at hLe
    cases hW : w.2 with
    | false => rfl
    | true =>
        rw [hW] at hLe
        rcases hLe with hLt | ⟨hEq, -⟩
        · exact absurd (show true < false from hLt) (by decide)
        · cases hEq

theorem tiedToggles_ne_nil
    {toggles : List Toggle}
    {wayId : String} :
    tiedToggles toggles wayId ≠ [] ↔
      (∃ t, Top toggles wayId t ∧ t.2 = true) ∧
        ∃ t, Top toggles wayId t ∧ t.2 = false := by
  have hOn :
      (topToggles toggles wayId).any (fun t => t.2) = true ↔
        ∃ t, Top toggles wayId t ∧ t.2 = true := by
    simp only [List.any_eq_true, mem_topToggles]
  have hOff :
      (topToggles toggles wayId).any (fun t => !t.2) = true ↔
        ∃ t, Top toggles wayId t ∧ t.2 = false := by
    simp only [List.any_eq_true, mem_topToggles,
      Bool.not_eq_true']
  unfold tiedToggles
  simp only
  split
  · rename_i hBoth
    rw [Bool.and_eq_true] at hBoth
    refine ⟨fun _ => ⟨hOn.mp hBoth.1, hOff.mp hBoth.2⟩,
      fun _ hNil => ?_⟩
    obtain ⟨t, hTop, -⟩ := hOn.mp hBoth.1
    have hMem :
        t.1 ∈ SortDedup.sorted
          ((topToggles toggles wayId).map Prod.fst) :=
      SortDedup.mem_sorted.mpr
        (List.mem_map_of_mem (mem_topToggles.mpr hTop))
    rw [hNil] at hMem
    cases hMem
  · rename_i hNot
    refine ⟨fun hNe => absurd rfl hNe, fun hBoth => ?_⟩
    exact absurd (Bool.and_eq_true_iff.mpr
      ⟨hOn.mpr hBoth.1, hOff.mpr hBoth.2⟩) hNot

/-
  Whether a way is off is read off the set of its toggles:
  some toggle that matches it as closely as any switches it
  off. A tie between on and off is off, and is reported.
-/
theorem way_toggled_off_iff
    (toggles : List Toggle)
    (wayId : String) :
    (wayToggledOff toggles wayId = true ↔
        ∃ t ∈ toggles, toggleMatches t.1 wayId = true ∧
          t.2 = false ∧
          ∀ u ∈ toggles, toggleMatches u.1 wayId = true →
            toggleRank u.1 ≤ toggleRank t.1) ∧
      (tiedToggles toggles wayId ≠ [] →
        wayToggledOff toggles wayId = true) ∧
      ∀ others : List Toggle,
        (∀ t, t ∈ others ↔ t ∈ toggles) →
          winningToggle others wayId =
            winningToggle toggles wayId ∧
          tiedToggles others wayId =
            tiedToggles toggles wayId := by
  refine ⟨?_, fun hTied => ?_, fun others hSame => ⟨?_, ?_⟩⟩
  · rw [wayToggledOff_iff]
    constructor
    · rintro ⟨t, ⟨hMem, hMatch, hTop⟩, hOff⟩
      exact ⟨t, hMem, hMatch, hOff, hTop⟩
    · rintro ⟨t, hMem, hMatch, hOff, hTop⟩
      exact ⟨t, ⟨hMem, hMatch, hTop⟩, hOff⟩
  · exact wayToggledOff_iff.mpr (tiedToggles_ne_nil.mp hTied).2
  · exact winningToggle_congr fun t _ => hSame t
  · have hTop : ∀ t,
        t ∈ topToggles others wayId ↔
          t ∈ topToggles toggles wayId := by
      intro t
      rw [mem_topToggles, mem_topToggles]
      exact top_congr (fun u _ => hSame u) t
    unfold tiedToggles
    simp only
    have hAny : ∀ f : Toggle → Bool,
        (topToggles others wayId).any f =
          (topToggles toggles wayId).any f := by
      intro f
      rw [Bool.eq_iff_iff, List.any_eq_true,
        List.any_eq_true]
      simp only [hTop]
    rw [hAny, hAny]
    split
    · refine SortDedup.sorted_congr fun key => ?_
      simp only [List.mem_map, hTop]
    · rfl

------------------------------------------------------------
-- Keys Of A Directory
------------------------------------------------------------

theorem under_iff
    {dir id : String} :
    under dir id = true ↔
      id = dir ∨ ∃ rest, id = dir ++ "/" ++ rest := by
  unfold under
  rw [Bool.or_eq_true, beq_iff_eq, Option.any_eq_true]
  refine or_congr_right ⟨?_, ?_⟩
  · rintro ⟨r, hStrip, hStarts⟩
    have hId := stripPrefix_eq_some hStrip
    rw [startsWith, List.isPrefixOf_iff_prefix] at hStarts
    obtain ⟨rest, hRest⟩ := hStarts
    refine ⟨String.ofList rest, ?_⟩
    rw [← String.toList_inj, hId, ← hRest]
    simp
  · rintro ⟨rest, rfl⟩
    refine ⟨"/" ++ rest, ?_, startsWith_append "/" rest⟩
    rw [String.append_assoc]
    exact stripPrefix_append _ _

theorem mem_of_mem_segment
    {s : String}
    {seg : Segment}
    {c : Char}
    (hSeg : seg ∈ segments s)
    (hC : c ∈ seg) :
    c ∈ s.toList := by
  rw [toList_eq s]
  obtain ⟨front, back, hSplit⟩ := List.append_of_mem hSeg
  rw [hSplit]
  have hTail :
      ['/'].intercalate (seg :: back) =
        seg ++ (['/'].intercalate (seg :: back)).drop
          seg.length := by
    cases back with
    | nil => simp
    | cons t back =>
        rw [List.intercalate_cons_of_ne_nil (by simp)]
        simp
  by_cases hFront : front = []
  · rw [hFront, List.nil_append, hTail]
    exact List.mem_append_left _ hC
  · rw [Framing.intercalate_append hFront (by simp), hTail]
    simp [hC]

/- A key with no asterisk matches the one way it spells. -/
theorem pattern_plain
    {dir : String}
    (hPlain : '*' ∉ dir.toList) :
    pattern dir = (segments dir).map Piece.lit := by
  refine List.map_congr_left fun seg hSeg => ?_
  have hNone : '*' ∉ seg :=
    fun hC => hPlain (mem_of_mem_segment hSeg hC)
  unfold piece
  rw [if_neg, if_neg]
  · rintro rfl
    exact hNone (by decide)
  · rintro rfl
    exact hNone (by decide)

theorem matches_plain
    {dir id : String}
    (hPlain : '*' ∉ dir.toList)
    (hMatch : toggleMatches dir id = true) :
    under dir id = true := by
  unfold toggleMatches at hMatch
  rw [pattern_plain hPlain, covers_literal] at hMatch
  exact under_iff.mpr (.inl (eq_of_segments hMatch))

/- What a key under a directory matches lies under it. -/
theorem under_of_segments
    {dir id : String}
    {t : List Segment}
    (hNe : t ≠ [])
    (hSegs : segments id = segments dir ++ t) :
    under dir id = true := by
  refine under_iff.mpr
    (.inr ⟨String.ofList (['/'].intercalate t), ?_⟩)
  have hFree : ∀ s ∈ t, '/' ∉ s := by
    intro s hMem
    refine slash_not_mem (s := id) ?_
    rw [hSegs]
    exact List.mem_append_right _ hMem
  refine eq_of_segments ?_
  rw [segments_append, segments_ofList hNe hFree, hSegs]

theorem matches_star
    {dir id : String}
    (hPlain : '*' ∉ dir.toList)
    (hMatch : toggleMatches (dir ++ "/*") id = true) :
    under dir id = true := by
  have hKey : dir ++ "/*" = dir ++ "/" ++ "*" := by
    rw [String.append_assoc]
    rfl
  unfold toggleMatches pattern at hMatch
  rw [hKey, segments_append, List.map_append] at hMatch
  have hDir := pattern_plain hPlain
  unfold pattern at hDir
  rw [hDir, show (segments "*").map piece = [.one] by decide,
    covers_literal_append_one] at hMatch
  obtain ⟨s, hSegs⟩ := hMatch
  exact under_of_segments (by simp) hSegs

theorem matches_sub
    {dir id : String}
    (hPlain : '*' ∉ dir.toList)
    (hMatch : toggleMatches (dir ++ "/**") id = true) :
    under dir id = true := by
  have hKey : dir ++ "/**" = dir ++ "/" ++ "**" := by
    rw [String.append_assoc]
    rfl
  unfold toggleMatches pattern at hMatch
  rw [hKey, segments_append, List.map_append] at hMatch
  have hDir := pattern_plain hPlain
  unfold pattern at hDir
  rw [hDir, show (segments "**").map piece = [.many] by decide,
    covers_literal_append_many] at hMatch
  obtain ⟨t, hNe, hSegs⟩ := hMatch
  exact under_of_segments hNe hSegs

theorem starDir_eq_some
    {key dir : String}
    (hDir : starDir key = some dir) :
    key = dir ++ "/*" ∧ '*' ∉ dir.toList := by
  unfold starDir at hDir
  rw [Option.filter_eq_some_iff] at hDir
  obtain ⟨hStrip, hPlain⟩ := hDir
  have hKey := toList_of_stripSuffix hStrip
  refine ⟨?_, fun hStar => ?_⟩
  · rw [← String.toList_inj, hKey, String.toList_append]
  · simp only [ne_eq, decide_not, Bool.and_eq_true,
      Bool.not_eq_true'] at hPlain
    have hIn : contains dir "*" = true := by
      rw [ contains_iff_infix]
      obtain ⟨front, back, hSplit⟩ := List.append_of_mem hStar
      exact ⟨front, back, by simp [hSplit]⟩
    rw [hIn] at hPlain
    cases hPlain.2

------------------------------------------------------------
-- Advice
------------------------------------------------------------

/- What an advice has written in place of the key. -/
def Advice.adds : Advice → Option (List Toggle)
| .remove _ => some []
| .replace _ _ add _ => some add
| _ => none

/- What is written for a key is of its own directory. -/
theorem mem_replacement
    {dir : String}
    {on dirIsWay hasChildren : Bool}
    {toggles : List Toggle}
    {keys : List String}
    {t : Toggle}
    (hMem :
      t ∈ (replacement dir on toggles keys dirIsWay
        hasChildren).1) :
    (t.1 = dir ∧ dir ∉ keys) ∨ t.1 = dir ++ "/**" := by
  have hSub :
      ∀ u ∈ (if hasChildren then [(dir ++ "/**", on)]
          else [] : List Toggle),
        u.1 = dir ++ "/**" := by
    intro u hU
    cases hasChildren with
    | true =>
        rw [if_pos rfl, List.mem_singleton] at hU
        rw [hU]
    | false => cases hU
  unfold replacement at hMem
  simp only at hMem
  by_cases hKey : keys.contains dir = true
  · rw [if_pos hKey] at hMem
    split at hMem
    · split at hMem
      · exact .inr (hSub t hMem)
      · split at hMem
        · exact .inr (hSub t hMem)
        · exact .inr (hSub t hMem)
    · split at hMem
      · exact .inr (hSub t hMem)
      · exact .inr (hSub t hMem)
  · rw [if_neg hKey] at hMem
    split at hMem
    · rcases List.mem_cons.mp hMem with rfl | hIn
      · exact .inl ⟨rfl, by simpa using hKey⟩
      · exact .inr (hSub t hIn)
    · exact .inr (hSub t hMem)

/- The tied keys listed are those tied on some way. -/
theorem mem_ties
    (toggles : List Toggle)
    (ids : List String)
    (keys : List String) :
    (∃ t ∈ ties toggles ids, t.1 = keys) ↔
      keys ≠ [] ∧ ∃ id ∈ ids, tiedToggles toggles id = keys := by
  unfold ties
  induction ids using List.reverseRecOn with
  | nil => simp
  | append_singleton ids last ih =>
      rw [List.foldl_append]
      simp only [List.foldl_cons, List.foldl_nil]
      generalize ids.foldl _ _ = out at ih ⊢
      have hIds :
          (∃ id ∈ ids ++ [last],
              tiedToggles toggles id = keys) ↔
            (∃ id ∈ ids, tiedToggles toggles id = keys) ∨
              tiedToggles toggles last = keys := by
        simp [or_and_right, exists_or]
      rw [hIds, and_or_left, ← ih]
      split
      · rename_i hNew
        simp only [Bool.and_eq_true, Bool.not_eq_true',
          List.isEmpty_eq_false_iff] at hNew
        simp only [List.mem_append, List.mem_singleton,
          or_and_right, exists_or]
        refine or_congr_right ⟨?_, ?_⟩
        · rintro ⟨t, rfl, rfl⟩
          exact ⟨hNew.1, rfl⟩
        · rintro ⟨-, hEq⟩
          exact ⟨_, rfl, hEq⟩
      · rename_i hOld
        refine ⟨.inl, fun hEither => ?_⟩
        rcases hEither with hIn | ⟨hNe, rfl⟩
        · exact hIn
        · simp only [Bool.and_eq_true, Bool.not_eq_true',
            List.isEmpty_eq_false_iff, not_and,
            Bool.not_eq_false] at hOld
          have hAny := hOld hNe
          rw [List.any_eq_true] at hAny
          obtain ⟨t, hT, hEq⟩ := hAny
          exact ⟨t, hT, by simpa using hEq⟩

/- What an advice that writes something has checked. -/
theorem advice_cases
    {key : String}
    {toggles : List Toggle}
    {keys ids : List String}
    {advice : Advice}
    {add : List Toggle}
    (hAdvice :
      oldStarAdvice key toggles keys (some ids) = some advice)
    (hAdds : advice.adds = some add) :
    ∃ dir on dirIsWay hasChildren,
      starDir key = some dir ∧ dir ++ "/**" ∉ keys ∧
        add =
          (replacement dir on toggles keys dirIsWay
            hasChildren).1 ∧
        (∀ id ∈ ids, under dir id = true →
          (prePatternToggle toggles id == some false) =
            wayToggledOff (rewritten key toggles add) id) ∧
        ∀ t ∈ ties (rewritten key toggles add) ids,
          ∃ b ∈ ties toggles ids, b.1 = t.1 := by
  unfold oldStarAdvice at hAdvice
  rw [Option.map_eq_some_iff] at hAdvice
  obtain ⟨dir, hDir, hAdvice⟩ := hAdvice
  split at hAdvice
  · subst hAdvice
    cases hAdds
  · rename_i on hOn
    simp only at hAdvice
    split at hAdvice
    · subst hAdvice
      cases hAdds
    · rename_i hSub
      split at hAdvice
      · subst hAdvice
        cases hAdds
      · rename_i found hIds
        rw [Option.filter_eq_some_iff] at hIds
        obtain ⟨hFound, -⟩ := hIds
        cases hFound
        split at hAdvice
        · subst hAdvice
          cases hAdds
        · split at hAdvice
          · subst hAdvice
            cases hAdds
          · rename_i hKept
            have hAdd :
                add =
                  (replacement dir on toggles keys
                    ((some ids).filter
                      (fun ids => !ids.isEmpty) |>.all
                        (fun ids => ids.contains dir))
                    (ids.any (below dir))).1 := by
              split at hAdvice
              · rename_i hEmpty
                subst hAdvice
                cases hAdds
                exact (List.isEmpty_iff.mp hEmpty).symm
              · subst hAdvice
                cases hAdds
                rfl
            rw [← hAdd, Bool.not_eq_true', Bool.not_eq_false,
              Bool.and_eq_true, List.all_eq_true,
              List.all_eq_true] at hKept
            refine ⟨dir, on, _, _, hDir, by simpa using hSub,
              hAdd, fun id hId hUnder => ?_, fun t hT => ?_⟩
            · have hState :=
                hKept.1 id (List.mem_filter.mpr ⟨hId, hUnder⟩)
              simpa using hState
            · have hTie := hKept.2 t hT
              rw [List.any_eq_true] at hTie
              obtain ⟨b, hB, hEq⟩ := hTie
              exact ⟨b, hB, by simpa using hEq⟩

/- A key of the old rule, with a way at and one under it. -/
def oldKey : String := "documentation/adr/*"

def adrWays : List String :=
  ["documentation/adr", "documentation/adr/figure"]

def oldKeyAdds : List Toggle :=
  [("documentation/adr", false),
    ("documentation/adr/**", false)]

theorem advice_on_oldKey :
    oldStarAdvice oldKey [(oldKey, false)] [oldKey]
        (some adrWays) =
      some (.replace true true oldKeyAdds "") := by
  decide

end Toggles
