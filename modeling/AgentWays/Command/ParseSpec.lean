import AgentWays.Command.SegmentsSpec

/-
  The whole parse: a command's segments, and those of each
  command string put after the segment that runs it.

  Key definitions include:
    * `Command.CommandString.Sound`
    * `Command.StringParser`

  Main declarations:
    * `Command.CommandString.sourceSpan_spec`
    * `Command.parse_total`
    * `Command.parse_describes`
-/

------------------------------------------------------------
-- Command Strings
------------------------------------------------------------

namespace Command

namespace CommandString

/- A string's words, in order in it and in the source. -/
structure Sound
    (len : Nat)
    (s : CommandString) : Prop where
  gaps : s.words.Pairwise fun a b => a.at_ + a.len < b.at_
  spans : Span.Runs 0 (s.words.map StringWord.span) len
  first : ∀ w, s.words.head? = some w → w.at_ = 0
  last :
    ∀ w, s.words.getLast? = some w → w.at_ + w.len = s.text.length
  ends : ∀ w ∈ s.words, w.at_ + w.len ≤ s.text.length
  verbatim :
    ∀ w ∈ s.words, ∀ v, w.verbatim = some v →
      w.span.start ≤ v ∧ v + w.len ≤ w.span.stop

/- A value as written lies in its token, inside its quotes. -/
theorem verbatimAt_bounds
    {src raw : Text}
    {w : Token}
    (hLe : w.span.start ≤ w.span.stop)
    (hRaw : slice? src w.span.start w.span.stop = some raw)
    {v : Nat}
    (hV : verbatimAt raw w = some v) :
    w.span.start ≤ v ∧ v + w.value.length ≤ w.span.stop := by
  have hLen : raw.length = w.span.stop - w.span.start := by
    unfold slice? at hRaw
    split at hRaw
    · cases hRaw
      rw [List.length_drop, List.length_take]
      omega
    · cases hRaw
  unfold verbatimAt at hV
  split_ifs at hV
  · rename_i hSame
    cases hV
    rw [← hSame]
    omega
  · rename_i hQuoted
    cases hV
    simp only [List.any_cons, List.any_nil, Bool.or_false,
      Bool.or_eq_true, beq_iff_eq] at hQuoted
    have hSize : raw.length = w.value.length + 2 := by
      rcases hQuoted with hQuoted | hQuoted
      · rw [hQuoted]
        simp
      · rw [hQuoted]
        simp
    omega

/- One more word, past a space where it is not the first. -/
theorem Sound.snoc
    {len mid : Nat}
    {s : CommandString}
    (hSound : s.Sound mid)
    (hEmpty : s.words = [] → s.text = [])
    {w : Token}
    (hStart : mid ≤ w.span.start)
    (hWide : w.span.start ≤ w.span.stop)
    (hStop : w.span.stop ≤ len)
    {verbatim : Option Nat}
    (hVerbatim :
      ∀ v, verbatim = some v →
        w.span.start ≤ v ∧ v + w.value.length ≤ w.span.stop) :
    let text := if s.words = [] then s.text else s.text ++ [' ']
    Sound len
      { text := text ++ w.value
        words := s.words ++
          [{ at_ := text.length
             len := w.value.length
             span := w.span
             verbatim := verbatim }] } := by
  intro text
  have hPast : s.text.length ≤ text.length := by
    unfold text
    split
    · exact le_rfl
    · rw [List.length_append]
      exact Nat.le_add_right _ _
  have hGap (hSome : s.words ≠ []) :
      s.text.length < text.length := by
    unfold text
    rw [if_neg hSome, List.length_append]
    exact Nat.lt_succ_self _
  refine
    { gaps := ?_
      spans := ?_
      first := ?_
      last := ?_
      ends := ?_
      verbatim := ?_ }
  · rw [List.pairwise_append]
    refine ⟨hSound.gaps, List.pairwise_singleton _ _, ?_⟩
    intro a hA c hC
    rw [List.mem_singleton.mp hC]
    exact
      (hSound.ends a hA).trans_lt
        (hGap (List.ne_nil_of_mem hA))
  · rw [List.map_append, List.map_singleton]
    exact hSound.spans.snoc hStart hWide hStop
  · intro u hU
    by_cases hNone : s.words = []
    · rw [hNone, List.nil_append] at hU
      cases hU
      unfold text
      dsimp only
      rw [if_pos hNone, hEmpty hNone]
      rfl
    · rw [List.head?_append_of_ne_nil _ hNone] at hU
      exact hSound.first u hU
  · intro u hU
    rw [List.getLast?_concat] at hU
    cases hU
    rw [List.length_append]
  · intro u hU
    rw [List.length_append]
    rcases List.mem_append.mp hU with hOld | hLast
    · exact
        ((hSound.ends u hOld).trans hPast).trans
          (Nat.le_add_right _ _)
    · rw [List.mem_singleton.mp hLast]
  · intro u hU v hV
    rcases List.mem_append.mp hU with hOld | hLast
    · exact hSound.verbatim u hOld v hV
    · rw [List.mem_singleton.mp hLast] at hV ⊢
      exact hVerbatim v hV

theorem readWords_sound
    {src : Text}
    {words : List Token}
    {s : CommandString}
    {mid : Nat}
    (hSound : s.Sound mid)
    (hEmpty : s.words = [] → s.text = [])
    (hRuns : Span.Runs mid (words.map Token.span) src.length) :
    ∃ out, readWords src s words = some out ∧
      out.Sound src.length ∧
      (words ≠ [] ∨ s.words ≠ [] → out.words ≠ []) := by
  induction words generalizing s mid with
  | nil =>
      refine ⟨s, rfl, ?_, by simp⟩
      exact
        { hSound with
          spans := hSound.spans.mono le_rfl hRuns }
  | cons w rest ih =>
      rw [List.map_cons] at hRuns
      obtain ⟨hStart, hWide, hRest⟩ := hRuns
      have hSlice := slice?_eq_some (b := src) hWide hRest.le
      have hNext :=
        hSound.snoc hEmpty hStart hWide le_rfl
          (fun v hV => verbatimAt_bounds hWide hSlice hV)
      obtain ⟨out, hRun, hOut, hSome⟩ :=
        ih hNext (by simp) hRest
      unfold readWords
      rw [hSlice, Option.bind_some]
      exact ⟨out, hRun, hOut, fun _ => hSome (by simp)⟩

theorem new_sound
    {src : Text}
    {words : List Token}
    (hRunnable : Runnable src.length words) :
    ∃ s, CommandString.new src words = some s ∧
      s.Sound src.length ∧ s.words ≠ [] := by
  have hNone : Sound 0 { text := [], words := [] } :=
    { gaps := .nil
      spans := show 0 ≤ 0 from le_rfl
      first := by simp
      last := by simp
      ends := by simp
      verbatim := by simp }
  obtain ⟨s, hRun, hSound, hSome⟩ :=
    readWords_sound hNone (fun _ => rfl) hRunnable.runs
  exact ⟨s, hRun, hSound, hSome (.inl hRunnable.filled)⟩

/- A place where something holds, if it holds of a member. -/
theorem rposition_spec
    {α : Type}
    {p : α → Bool}
    {xs : List α}
    {x : α}
    (hIn : x ∈ xs)
    (hP : p x = true) :
    ∃ i a, (rposition p xs).getD 0 = i ∧ xs[i]? = some a ∧
      p a = true := by
  unfold rposition
  cases hFind : xs.reverse.findIdx? p with
  | none =>
      rw [List.findIdx?_eq_none_iff] at hFind
      have hNot := hFind x (List.mem_reverse.mpr hIn)
      rw [hP] at hNot
      cases hNot
  | some i =>
      rw [List.findIdx?_eq_some_iff_getElem] at hFind
      obtain ⟨hLt, hPa, -⟩ := hFind
      rw [List.length_reverse] at hLt
      refine
        ⟨xs.length - 1 - i, xs[xs.length - 1 - i], rfl, ?_, ?_⟩
      · exact List.getElem?_eq_getElem (by omega)
      · rwa [List.getElem_reverse] at hPa

theorem findIdx_spec
    {α : Type}
    {p : α → Bool}
    {xs : List α}
    {x : α}
    (other : Nat)
    (hIn : x ∈ xs)
    (hP : p x = true) :
    ∃ i a, (xs.findIdx? p).getD other = i ∧ xs[i]? = some a ∧
      p a = true := by
  cases hFind : xs.findIdx? p with
  | none =>
      rw [List.findIdx?_eq_none_iff] at hFind
      have hNot := hFind x hIn
      rw [hP] at hNot
      cases hNot
  | some i =>
      rw [List.findIdx?_eq_some_iff_getElem] at hFind
      obtain ⟨hLt, hPa, -⟩ := hFind
      exact
        ⟨i, xs[i], rfl, List.getElem?_eq_getElem hLt, hPa⟩

/- A span of the string is one of the source, in order. -/
theorem sourceSpan_spec
    {len : Nat}
    {s : CommandString}
    (hSound : s.Sound len)
    (hSome : s.words ≠ [])
    {r : Span}
    (hLe : r.start ≤ r.stop)
    (hStop : r.stop ≤ s.text.length) :
    ∃ out, s.sourceSpan r = some out ∧ out.start ≤ out.stop ∧
      out.stop ≤ len := by
  have hHead := List.head?_eq_some_head hSome
  have hFinal := List.getLast?_eq_some_getLast hSome
  obtain ⟨i, a, hI, hA, hAt⟩ :=
    rposition_spec (p := fun w : StringWord => w.at_ ≤ r.start)
      (List.mem_of_head? hHead)
      (by simp [hSound.first _ hHead])
  obtain ⟨j, c, hJ, hC, hEnd⟩ :=
    findIdx_spec (p := fun w : StringWord => r.stop ≤ w.at_ + w.len)
      (s.words.length - 1) (List.mem_of_getLast? hFinal)
      (by simp [hSound.last _ hFinal, hStop])
  rw [decide_eq_true_eq] at hAt hEnd
  -- The word the span ends in is not before its first.
  have hOrder : i ≤ j := by
    by_contra hAfter
    obtain ⟨hILt, hIGet⟩ := List.getElem?_eq_some_iff.mp hA
    obtain ⟨hJLt, hJGet⟩ := List.getElem?_eq_some_iff.mp hC
    have hGap :=
      List.pairwise_iff_getElem.mp hSound.gaps j i hJLt hILt
        (by omega)
    rw [hIGet, hJGet] at hGap
    omega
  have hAIn := List.mem_of_getElem? hA
  have hCIn := List.mem_of_getElem? hC
  have hABounds := hSound.spans.bounds (List.mem_map_of_mem hAIn)
  have hCBounds := hSound.spans.bounds (List.mem_map_of_mem hCIn)
  have hWords :
      i = j ∧ a = c ∨ a.span.stop ≤ c.span.start := by
    rcases Nat.lt_or_eq_of_le hOrder with hLt | hSame
    · right
      obtain ⟨hILt, hIGet⟩ := List.getElem?_eq_some_iff.mp hA
      obtain ⟨hJLt, hJGet⟩ := List.getElem?_eq_some_iff.mp hC
      have hBefore :=
        List.pairwise_iff_getElem.mp
          (List.pairwise_map.mp hSound.spans.pairwise) i j hILt
          hJLt hLt
      rw [hIGet, hJGet] at hBefore
      exact hBefore
    · left
      subst hSame
      rw [hA] at hC
      cases hC
      exact ⟨rfl, rfl⟩
  unfold sourceSpan
  simp only [hI, hJ, hA, hC]
  cases hAV : a.verbatim with
  | none =>
      refine ⟨_, rfl, ?_, hCBounds.2.2⟩
      dsimp only
      rcases hWords with ⟨-, rfl⟩ | hBefore
      · exact hABounds.2.1
      · omega
  | some sa =>
      have hSa := hSound.verbatim a hAIn sa hAV
      cases hCV : c.verbatim with
      | none =>
          refine ⟨_, rfl, ?_, hCBounds.2.2⟩
          dsimp only
          rcases hWords with ⟨-, rfl⟩ | hBefore
          · exact hABounds.2.1
          · omega
      | some sb =>
          have hSb := hSound.verbatim c hCIn sb hCV
          dsimp only
          rw [if_pos hAt]
          refine ⟨_, rfl, ?_, ?_⟩
          · dsimp only
            rcases hWords with ⟨-, rfl⟩ | hBefore
            · rw [hAV] at hCV
              cases hCV
              omega
            · omega
          · dsimp only
            omega

end CommandString

------------------------------------------------------------
-- The Segments Of A String
------------------------------------------------------------

theorem retain_sublist
    (r : Retain)
    (segments : List Segment) :
    (retain r segments).Sublist segments := by
  induction segments generalizing r with
  | nil => exact .slnil
  | cons s rest ih =>
      unfold retain
      dsimp only
      split
      · exact (ih _).cons s
      · exact (ih _).cons_cons s

/- The first segment's connector alone is changed. -/
theorem startString_fits
    {len depth : Nat}
    {segments : List Segment}
    (hFits : ∀ s ∈ segments, s.Fits len depth) :
    ∀ s ∈ startString segments, s.Fits len depth := by
  cases segments with
  | nil => exact hFits
  | cons s rest =>
      intro x hIn
      rcases List.mem_cons.mp hIn with rfl | hRest
      · have hFirst := hFits s List.mem_cons_self
        split
        · exact
            { depth := hFirst.depth
              capped := hFirst.capped
              ordered := hFirst.ordered
              within := hFirst.within
              programAt := hFirst.programAt }
        · exact hFirst
      · exact hFits x (List.mem_cons_of_mem s hRest)

theorem mapSpans_fits
    {len depth : Nat}
    {string : CommandString}
    (hSound : string.Sound len)
    (hSome : string.words ≠ [])
    {segments : List Segment}
    (hFits : ∀ s ∈ segments, s.Fits string.text.length depth) :
    ∃ out, mapSpans string segments = some out ∧
      ∀ s ∈ out, s.Fits len depth := by
  induction segments with
  | nil => exact ⟨[], rfl, by simp⟩
  | cons s rest ih =>
      have hFirst := hFits s List.mem_cons_self
      obtain ⟨span, hSpan, hOrdered, hWithin⟩ :=
        CommandString.sourceSpan_spec hSound hSome
          hFirst.ordered hFirst.within
      obtain ⟨out, hRest, hOut⟩ :=
        ih fun x hIn => hFits x (List.mem_cons_of_mem s hIn)
      unfold mapSpans
      rw [hSpan, Option.bind_some, hRest, Option.map_some]
      refine ⟨_, rfl, fun x hIn => ?_⟩
      rcases List.mem_cons.mp hIn with rfl | hIn
      · exact
          { depth := hFirst.depth
            capped := hFirst.capped
            ordered := hOrdered
            within := hWithin
            programAt := hFirst.programAt }
      · exact hOut x hIn

/- A parser of command strings, from a depth on. -/
def StringParser
    (depth : Nat)
    (parseString : Text → Nat → Option (List Segment)) : Prop :=
  ∀ text at_, depth ≤ at_ → at_ + 1 < maxDepth →
    ∃ segments, parseString text (at_ + 1) = some segments ∧
      ∀ s ∈ segments, s.Fits text.length (at_ + 1)

section Strings

variable {depth : Nat}
variable {parseString : Text → Nat → Option (List Segment)}

theorem commandString_fits
    (hParser : StringParser depth parseString)
    {command : Text}
    {words : List Token}
    (hRunnable : Runnable command.length words)
    {at_ : Nat}
    (hDepth : depth ≤ at_)
    (hCapped : at_ + 1 < maxDepth)
    (nested : List Segment) :
    ∃ out,
      commandString parseString command words at_ nested =
        some out ∧
      ∀ s ∈ out, s.Fits command.length (at_ + 1) := by
  obtain ⟨string, hNew, hSound, hSome⟩ :=
    CommandString.new_sound hRunnable
  obtain ⟨inner, hInner, hFits⟩ :=
    hParser string.text at_ hDepth hCapped
  unfold commandString
  rw [hNew, Option.bind_some]
  dsimp only
  rw [hInner, Option.bind_some]
  refine mapSpans_fits hSound hSome (startString_fits ?_)
  intro s hIn
  exact hFits s ((retain_sublist _ inner).mem hIn)

/- A segment that is built, with the string that it runs. -/
def Sits
    (len depth : Nat)
    (r : Built) : Prop :=
  r.1.Fits len depth ∧
    ∀ words, r.2 = some words → Runnable len words

/-
  Each segment that is built stays in its order, and what is
  put between lies in the text, at the depth or deeper.
-/
theorem expand_fits
    (hParser : StringParser depth parseString)
    {command : Text}
    {n : Nat}
    {built : List Built}
    (hSteps : built.length < n)
    (hBuilt : ∀ r ∈ built, Sits command.length depth r) :
    ∃ out, expand parseString command n built = some out ∧
      (built.map Prod.fst).Sublist out ∧
      ∀ s ∈ out, s.Fits command.length depth := by
  induction n generalizing built with
  | zero => omega
  | succ n ih =>
      cases built with
      | nil => exact ⟨[], rfl, .slnil, by simp⟩
      | cons r rest =>
          obtain ⟨segment, string⟩ := r
          rw [List.length_cons] at hSteps
          have hFirst := hBuilt _ List.mem_cons_self
          have hRest {part : List Built}
              (hPart : part.Sublist rest) :
              ∃ out,
                expand parseString command n part = some out ∧
                (part.map Prod.fst).Sublist out ∧
                ∀ s ∈ out, s.Fits command.length depth := by
            refine ih ?_ fun x hIn => ?_
            · have hLen := hPart.length_le
              omega
            · exact hBuilt x
                (List.mem_cons_of_mem _ (hPart.mem hIn))
          cases string with
          | none =>
              obtain ⟨more, hMore, hSub, hFits⟩ :=
                hRest (List.Sublist.refl rest)
              unfold expand
              rw [hMore, Option.map_some]
              refine
                ⟨_, rfl, hSub.cons_cons segment, fun s hIn => ?_⟩
              rcases List.mem_cons.mp hIn with rfl | hIn
              · exact hFirst.1
              · exact hFits s hIn
          | some words =>
              unfold expand
              dsimp only
              generalize
                (fun r : Built =>
                  decide (segment.depth < r.1.depth) &&
                    within r.1 segment.span) = inside
              obtain ⟨nested, hNested, hNestedSub, hNestedFits⟩ :=
                hRest (List.takeWhile_sublist inside)
              obtain ⟨more, hMore, hMoreSub, hMoreFits⟩ :=
                hRest (List.dropWhile_sublist inside)
              have hDeep := hFirst.1.depth
              have hInner :
                  ∃ inner,
                    (if segment.depth + 1 < maxDepth then
                      commandString parseString command words
                        segment.depth nested
                    else some []) = some inner ∧
                    ∀ s ∈ inner,
                      s.Fits command.length
                        (segment.depth + 1) := by
                split
                · rename_i hCapped
                  exact
                    commandString_fits hParser
                      (hFirst.2 words rfl) hDeep hCapped nested
                · exact ⟨[], rfl, by simp⟩
              obtain ⟨inner, hInner, hInnerFits⟩ := hInner
              rw [hNested, Option.bind_some, hInner,
                Option.bind_some, hMore, Option.map_some]
              refine ⟨_, rfl, ?_, fun s hIn => ?_⟩
              · rw [List.map_cons]
                refine List.Sublist.cons_cons segment ?_
                have hSplit :
                    rest.map Prod.fst =
                      (rest.takeWhile inside).map Prod.fst ++
                        (rest.dropWhile inside).map Prod.fst := by
                  rw [← List.map_append,
                    List.takeWhile_append_dropWhile]
                rw [hSplit, List.append_assoc]
                exact
                  hNestedSub.append
                    (hMoreSub.trans
                      (List.sublist_append_right inner more))
              · rcases List.mem_cons.mp hIn with rfl | hIn
                · exact hFirst.1
                · rcases List.mem_append.mp hIn with hIn | hIn
                  · rcases List.mem_append.mp hIn with hIn | hIn
                    · exact hNestedFits s hIn
                    · have hS := hInnerFits s hIn
                      exact
                        { hS with
                          depth :=
                            hDeep.trans
                              ((Nat.le_succ _).trans hS.depth) }
                  · exact hMoreFits s hIn

end Strings

------------------------------------------------------------
-- The Parse
------------------------------------------------------------

theorem buildAll_spec
    {src : Text}
    {d hi : Nat}
    {bodies : List Span}
    {raws : List RawSegment}
    (hPlaced : ∀ raw ∈ raws, Placed d 0 src.length raw)
    (hBodies : Span.Runs 0 bodies hi) :
    ∃ built, buildAll src bodies raws = some built ∧
      ∀ r ∈ built, ∃ raw ∈ raws, Builds src bodies raw r := by
  induction raws with
  | nil => exact ⟨[], rfl, by simp⟩
  | cons raw rest ih =>
      obtain ⟨built, hBuilt, hOne⟩ :=
        build_spec (hPlaced raw List.mem_cons_self) hBodies
      obtain ⟨more, hMore, hRest⟩ :=
        ih fun x hIn => hPlaced x (List.mem_cons_of_mem raw hIn)
      unfold buildAll
      rw [hBuilt, Option.bind_some, hMore, Option.map_some]
      refine ⟨_, rfl, fun r hIn => ?_⟩
      rcases List.mem_append.mp hIn with hIn | hIn
      · exact
          ⟨raw, List.mem_cons_self,
            hOne r (Option.mem_toList.mp hIn)⟩
      · obtain ⟨x, hX, hBuilds⟩ := hRest r hIn
        exact ⟨x, List.mem_cons_of_mem raw hX, hBuilds⟩

/- What a parse gives, and how it comes from the lexer. -/
structure Parses
    (command : Text)
    (depth : Nat)
    (segments : List Segment) : Prop where
  fits : ∀ s ∈ segments, s.Fits command.length depth
  outer :
    ∃ lexed built,
      lex command depth = some lexed ∧
        buildAll command lexed.excluded lexed.segments =
          some built ∧
        (built.map Prod.fst).Sublist segments ∧
        ∀ r ∈ built, ∃ raw ∈ lexed.segments,
          Clears lexed.excluded raw ∧
            Describes command lexed.excluded raw r.1

theorem parseAt_spec
    {n depth : Nat}
    (hSteps : maxDepth ≤ n + depth)
    (hDepth : depth < maxDepth)
    (command : Text) :
    ∃ segments, parseAt n command depth = some segments ∧
      Parses command depth segments := by
  induction n generalizing command depth with
  | zero => omega
  | succ n ih =>
      obtain ⟨lexed, hLex, hRegion⟩ := lex_region command hDepth
      obtain ⟨built, hBuilt, hBuilds⟩ :=
        buildAll_spec hRegion.placed hRegion.bodies
      have hParser : StringParser depth (parseAt n) := by
        intro text at_ hAt hCapped
        obtain ⟨segments, hParse, hParses⟩ :=
          ih (show maxDepth ≤ n + (at_ + 1) by omega) hCapped text
        exact ⟨segments, hParse, hParses.fits⟩
      have hSits : ∀ r ∈ built, Sits command.length depth r := by
        intro r hIn
        obtain ⟨raw, hRaw, hR⟩ := hBuilds r hIn
        have hLow := (hRegion.placed raw hRaw).depth
        exact
          ⟨{ hR.fits with depth := hLow.trans hR.fits.depth },
            hR.runnable⟩
      obtain ⟨out, hExpand, hSub, hFits⟩ :=
        expand_fits hParser (Nat.lt_succ_self built.length) hSits
      unfold parseAt
      rw [hLex, Option.bind_some, hBuilt, Option.bind_some]
      refine
        ⟨out, hExpand, hFits, lexed, built, hLex, hBuilt, hSub, ?_⟩
      intro r hIn
      obtain ⟨raw, hRaw, hOne⟩ := hBuilds r hIn
      exact
        ⟨raw, hRaw, hRegion.clears raw hRaw, hOne.describes⟩

/-
  Parsing any command ends and slices, indexes and subtracts
  within bounds, whatever command strings it holds. Each
  segment's depth is below the cap, its span lies in the
  command, and its program's place lies in its text.
-/
theorem parse_total
    (command : Text) :
    ∃ segments, parse command = some segments ∧
      ∀ s ∈ segments,
        s.depth < maxDepth ∧ s.span.start ≤ s.span.stop ∧
          s.span.stop ≤ command.length ∧
          s.programAt ≤ s.text.length := by
  obtain ⟨segments, hParse, hParses⟩ :=
    parseAt_spec (n := maxDepth) le_rfl
      (show 0 < maxDepth by simp [maxDepth]) command
  refine ⟨segments, hParse, fun s hIn => ?_⟩
  have hFits := hParses.fits s hIn
  exact
    ⟨hFits.capped, hFits.ordered, hFits.within, hFits.programAt⟩

end Command
