import AgentWays.Command.LexerRuns
import AgentWays.Command.Segments

/-
  What a segment says of its text: the text is the source
  over its span with the heredoc bodies cut out, and the
  program's place in it is where the program's word starts.

  Key definitions include:
    * `Command.Segment.Fits`
    * `Command.Describes`

  Main declarations:
    * `Command.cut_eq_kept`
    * `Command.textOffset_eq`
    * `Command.build_spec`
-/

------------------------------------------------------------
-- Cutting
------------------------------------------------------------

namespace Command

open Span

theorem slice?_eq_range
    {b : Text}
    {i j : Nat}
    (hLe : i ≤ j)
    (hLen : j ≤ b.length) :
    slice? b i j =
      some ((List.range' i (j - i)).filterMap fun k => b[k]?) := by
  rw [slice?_eq_some hLe hLen,
    filterMap_range' b (show i + (j - i) ≤ b.length by omega)]
  congr 3
  omega

theorem cutFrom_eq_kept
    {src : Text}
    {stop lo hi p : Nat}
    {bodies : List Span}
    (hRuns : Runs lo bodies hi)
    (hLe : p ≤ stop)
    (hLen : stop ≤ src.length) :
    cutFrom src stop bodies p = some (kept src bodies p stop) := by
  induction bodies generalizing lo p with
  | nil =>
      have hAll : keptAt [] p stop = List.range' p (stop - p) :=
        keptAt_all fun _ _ _ => rfl
      unfold cutFrom kept
      rw [slice?_eq_range hLe hLen, hAll]
  | cons e rest ih =>
      obtain ⟨hStart, hSpan, hRest⟩ := hRuns
      unfold cutFrom kept
      split
      · rename_i hApart
        rw [keptAt_cons_apart hApart]
        exact ih hRest hLe
      · rename_i hCuts
        have hP : max e.start p ≤ src.length := by omega
        have hFirst := slice?_eq_range (le_max_right e.start p) hP
        have hTail :=
          @ih e.stop (min e.stop stop) hRest (by omega)
        rw [hFirst, Option.bind_some, hTail, Option.map_some,
          keptAt_cons hSpan hRest (by omega) (by omega) hLe,
          List.filterMap_append, max_comm e.start p]
        rfl

/- A segment's text is the source without the bodies. -/
theorem cut_eq_kept
    {src : Text}
    {lo hi : Nat}
    {bodies : List Span}
    {span : Span}
    (hRuns : Runs lo bodies hi)
    (hLe : span.start ≤ span.stop)
    (hLen : span.stop ≤ src.length) :
    cut src span bodies =
      some (kept src bodies span.start span.stop) :=
  cutFrom_eq_kept hRuns hLe hLen

/- What is cut before a position, and what is left there. -/
theorem cutBefore_add
    {lo hi start pos : Nat}
    {bodies : List Span}
    (hRuns : Runs lo bodies hi)
    (hLe : start ≤ pos) :
    cutBefore pos start bodies +
      (keptAt bodies start pos).length = pos - start := by
  induction bodies generalizing lo with
  | nil =>
      have hAll : keptAt [] start pos =
          List.range' start (pos - start) :=
        keptAt_all fun _ _ _ => rfl
      rw [hAll, List.length_range']
      exact Nat.zero_add _
  | cons e rest ih =>
      obtain ⟨hStart, hSpan, hRest⟩ := hRuns
      have hLater := ih hRest
      have hSum :
          cutBefore pos start (e :: rest) =
            (min e.stop pos - max e.start start) +
              cutBefore pos start rest := by
        unfold cutBefore
        rw [List.map_cons, List.sum_cons]
      rw [hSum]
      by_cases hApart : e.stop ≤ start ∨ pos ≤ e.start
      · rw [keptAt_cons_apart hApart]
        omega
      · -- What is left of the rest starts where this one ends.
        have hSplit :=
          keptAt_append rest
            (show start ≤ min e.stop pos by omega)
            (show min e.stop pos ≤ pos by omega)
        have hBefore :
            keptAt rest start (min e.stop pos) =
              List.range' start (min e.stop pos - start) :=
          keptAt_all fun i _ hLt =>
            outside_of_lt hRest (by omega)
        rw [hBefore] at hSplit
        have hLength := congrArg List.length hSplit
        rw [List.length_append, List.length_range'] at hLength
        rw [keptAt_cons hSpan hRest (by omega) (by omega) hLe,
          List.length_append, List.length_range']
        omega

theorem textOffset_eq
    {src : Text}
    {lo hi pos : Nat}
    {bodies : List Span}
    {span : Span}
    (hRuns : Runs lo bodies hi)
    (hLe : span.start ≤ pos)
    (hLen : pos ≤ src.length) :
    textOffset pos span bodies =
      some (kept src bodies span.start pos).length := by
  have hAdd := cutBefore_add hRuns hLe
  unfold textOffset
  dsimp only
  rw [if_pos ⟨hLe, by omega⟩, length_kept hLen]
  congr 1
  omega

------------------------------------------------------------
-- One Segment
------------------------------------------------------------

theorem stripFrom_suffix
    (connector : Connector)
    (tokens : List Token) :
    (stripFrom connector tokens).2 <:+ tokens := by
  fun_induction stripFrom connector tokens with
  | case1 => exact List.suffix_rfl
  | case2 => exact List.suffix_rfl
  | case3 _ t rest _ _ ih => exact ih.trans (List.suffix_cons t rest)
  | case4 _ t rest _ _ _ past ih =>
      refine ih.trans ((List.drop_suffix _ past).trans ?_)
      exact (List.drop_suffix 1 rest).trans (List.suffix_cons t rest)
  | case5 _ t rest _ _ _ _ ih =>
      exact ih.trans (List.suffix_cons t rest)
  | case6 => exact List.suffix_rfl

theorem stripKeywords_suffix
    {connector : Connector}
    {tokens : List Token}
    {r : Connector × List Token}
    (hStrip : stripKeywords connector tokens = some r) :
    r.2 <:+ tokens ∧ r.2 ≠ [] := by
  unfold stripKeywords at hStrip
  have hSuffix := stripFrom_suffix connector tokens
  dsimp only at hStrip
  split at hStrip
  · cases hStrip
  · rename_i t rest hTokens
    split at hStrip
    · cases hStrip
    · cases hStrip
      refine ⟨hSuffix, ?_⟩
      rw [hTokens]
      exact List.cons_ne_nil t rest

/- A segment that lies in a text, at a depth or deeper. -/
structure Segment.Fits
    (len depth : Nat)
    (s : Segment) : Prop where
  depth : depth ≤ s.depth
  capped : s.depth < maxDepth
  ordered : s.span.start ≤ s.span.stop
  within : s.span.stop ≤ len
  programAt : s.programAt ≤ s.text.length

/- The words of a command string, in order in a text. -/
structure Runnable
    (len : Nat)
    (words : List Token) : Prop where
  filled : words ≠ []
  runs : Runs 0 (words.map Token.span) len

/-
  What a segment says of a raw one: its text is the source
  without the bodies, and where it has a program, its place
  is that of one of the raw segment's words, which names it.
-/
structure Describes
    (src : Text)
    (bodies : List Span)
    (raw : RawSegment)
    (s : Segment) : Prop where
  depth : s.depth = raw.depth
  starts : ∃ t ∈ raw.tokens, s.span.start = t.span.start
  stops : ∃ t ∈ raw.tokens, s.span.stop = t.span.stop
  text : s.text = kept src bodies s.span.start s.span.stop
  program :
    ∀ p, s.program = some p →
      ∃ t ∈ raw.tokens, t.kind = .word ∧ basename t.value = p ∧
        s.span.start ≤ t.span.start ∧
        t.span.stop ≤ s.span.stop ∧
        s.text.take s.programAt =
          kept src bodies s.span.start t.span.start ∧
        s.text.drop s.programAt =
          kept src bodies t.span.start s.span.stop

theorem commandWords_sub
    {program : Text}
    {args words : List Token}
    (hWords : commandWords program args = some words) :
    words ≠ [] ∧ words.Sublist args := by
  unfold commandWords at hWords
  dsimp only at hWords
  split_ifs at hWords
  · cases hWords
    exact ⟨‹_›, List.tail_sublist args⟩
  · cases hWords
    exact ⟨‹_›, List.Sublist.refl args⟩
  · rw [Option.map_eq_some_iff] at hWords
    obtain ⟨t, hGet, rfl⟩ := hWords
    exact
      ⟨List.cons_ne_nil t [],
        List.singleton_sublist.mpr (List.mem_of_getElem? hGet)⟩

/- The first and the last of tokens in order. -/
theorem ends_of_runs
    {lo hi : Nat}
    {tokens : List Token}
    {first last : Token}
    (hRuns : Runs lo (tokens.map Token.span) hi)
    (hFirst : tokens.head? = some first)
    (hLast : tokens.getLast? = some last) :
    ∀ t ∈ tokens, first.span.start ≤ t.span.start ∧
      t.span.start ≤ t.span.stop ∧ t.span.stop ≤ last.span.stop ∧
        last.span.stop ≤ hi := by
  intro t hIn
  have hOwn := hRuns.bounds (List.mem_map_of_mem hIn)
  obtain ⟨rest, rfl⟩ := List.head?_eq_some_iff.mp hFirst
  obtain ⟨front, hTokens⟩ := List.getLast?_eq_some_iff.mp hLast
  have hHead := hRuns
  rw [List.map_cons] at hHead
  obtain ⟨hLo, hWide, hRest⟩ := hHead
  rw [hTokens, List.map_append, List.map_singleton] at hRuns
  have hEnd := hRuns.last
  have hStart : first.span.start ≤ t.span.start := by
    rcases List.mem_cons.mp hIn with rfl | hIn
    · exact le_rfl
    · have hBounds := hRest.bounds (List.mem_map_of_mem hIn)
      exact hWide.trans hBounds.1
  have hStop : t.span.stop ≤ last.span.stop := by
    rw [hTokens] at hIn
    rcases List.mem_append.mp hIn with hIn | hIn
    · have hBounds := hEnd.1.bounds (List.mem_map_of_mem hIn)
      exact hBounds.2.2.trans hEnd.2.1
    · rw [List.mem_singleton.mp hIn]
  exact ⟨hStart, hOwn.2.1, hStop, hEnd.2.2⟩

/- What `build` gives, where it gives a segment. -/
structure Builds
    (src : Text)
    (bodies : List Span)
    (raw : RawSegment)
    (r : Built) : Prop where
  fits : r.1.Fits src.length raw.depth
  describes : Describes src bodies raw r.1
  runnable : ∀ words, r.2 = some words → Runnable src.length words

theorem build_spec
    {src : Text}
    {d lo hi : Nat}
    {bodies : List Span}
    {raw : RawSegment}
    (hPlaced : Placed d lo src.length raw)
    (hBodies : Runs lo bodies hi) :
    ∃ built, build src bodies raw = some built ∧
      ∀ r, built = some r → Builds src bodies raw r := by
  unfold build
  cases hStrip : stripKeywords raw.connector raw.tokens with
  | none => exact ⟨none, rfl, by simp⟩
  | some stripped =>
      obtain ⟨connector, tokens⟩ := stripped
      obtain ⟨hSuffix, hFilled⟩ := stripKeywords_suffix hStrip
      have hRuns : Runs lo (tokens.map Token.span) src.length :=
        hPlaced.runs.sublist (hSuffix.sublist.map Token.span)
      dsimp only
      cases hFirst : tokens.head? with
      | none =>
          exact absurd (List.head?_eq_none_iff.mp hFirst) hFilled
      | some first =>
          cases hLast : tokens.getLast? with
          | none =>
              exact
                absurd (List.getLast?_eq_none_iff.mp hLast) hFilled
          | some last =>
              have hEnds := ends_of_runs hRuns hFirst hLast
              have hFirstIn := List.mem_of_head? hFirst
              have hLastIn := List.mem_of_getLast? hLast
              have hAll := hEnds first hFirstIn
              have hLe : first.span.start ≤ last.span.stop :=
                hAll.2.1.trans hAll.2.2.1
              have hCut :
                  cut src ⟨first.span.start, last.span.stop⟩
                    bodies = some _ :=
                cut_eq_kept hBodies hLe hAll.2.2.2
              have hBare :
                  Builds src bodies raw
                    ({ connector := connector
                       depth := raw.depth
                       program := none
                       span :=
                         ⟨first.span.start, last.span.stop⟩
                       text :=
                         kept src bodies first.span.start
                           last.span.stop
                       programAt := 0 }, none) :=
                { fits :=
                    { depth := le_rfl
                      capped := hPlaced.capped
                      ordered := hLe
                      within := hAll.2.2.2
                      programAt := Nat.zero_le _ }
                  describes :=
                    { depth := rfl
                      starts :=
                        ⟨first, hSuffix.mem hFirstIn, rfl⟩
                      stops := ⟨last, hSuffix.mem hLastIn, rfl⟩
                      text := rfl
                      program := by simp }
                  runnable := by simp }
              dsimp only
              rw [hCut, Option.bind_some]
              cases hWord :
                  (tokens.filter fun t => t.kind == .word)[
                    programIndex
                      ((tokens.filter fun t =>
                        t.kind == .word).map Token.value)]? with
              | none =>
                  refine ⟨_, rfl, fun r hR => ?_⟩
                  cases hR
                  exact hBare
              | some t =>
                  have hT := List.mem_filter.mp
                    (List.mem_of_getElem? hWord)
                  have hTEnds := hEnds t hT.1
                  have hTLen : t.span.start ≤ src.length :=
                    hTEnds.2.1.trans
                      (hTEnds.2.2.1.trans hTEnds.2.2.2)
                  have hOffset :
                      textOffset t.span.start
                        ⟨first.span.start, last.span.stop⟩
                        bodies = some _ :=
                    textOffset_eq hBodies hTEnds.1 hTLen
                  have hSplit :=
                    kept_append src bodies hTEnds.1
                      (hTEnds.2.1.trans hTEnds.2.2.1)
                  dsimp only
                  split
                  · rw [hOffset, Option.map_some]
                    refine ⟨_, rfl, fun r hR => ?_⟩
                    cases hR
                    refine
                      { fits :=
                          { depth := le_rfl
                            capped := hPlaced.capped
                            ordered := hLe
                            within := hAll.2.2.2
                            programAt := ?_ }
                        describes :=
                          { hBare.describes with
                            program := ?_ }
                        runnable := ?_ }
                    · dsimp only
                      rw [hSplit, List.length_append]
                      exact Nat.le_add_right _ _
                    · intro p hP
                      cases hP
                      refine
                        ⟨t, hSuffix.mem hT.1, by simpa using hT.2,
                          rfl, hTEnds.1, hTEnds.2.2.1, ?_, ?_⟩
                      · dsimp only
                        rw [hSplit]
                        exact List.take_left
                      · dsimp only
                        rw [hSplit]
                        exact List.drop_left
                    · intro words hWords
                      obtain ⟨hSome, hSub⟩ :=
                        commandWords_sub hWords
                      refine ⟨hSome, ?_⟩
                      refine
                        (hRuns.mono (Nat.zero_le lo)
                          le_rfl).sublist (List.Sublist.map _ ?_)
                      exact
                        hSub.trans
                          ((List.drop_sublist _ _).trans
                            List.filter_sublist)
                  · refine ⟨_, rfl, fun r hR => ?_⟩
                    cases hR
                    exact hBare

end Command
