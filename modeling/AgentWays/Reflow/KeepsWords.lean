import AgentWays.Reflow.Runs

/-
  When a reflow keeps the words.

  A quoted unit's continuation marker is left out by the
  join, and counted as one word `>`. A marker written
  against its text is a part of that text's first word, and
  leaving it out changes the word.

  Key definitions include:
    * `Reflow.DropsMarkers`
    * `Reflow.gluedMarker`
    * `Reflow.KeepsWords`

  Main declarations:
    * `Reflow.keepsWords_iff`
-/

------------------------------------------------------------
-- Dropped Markers
------------------------------------------------------------

namespace Reflow

/- Some quote markers left out of a list of words. -/
inductive DropsMarkers :
    Nat → List (List Char) → List (List Char) → Prop
| nil : DropsMarkers 0 [] []
| keep {n : Nat} {before after : List (List Char)}
    (t : List Char)
    (hRest : DropsMarkers n before after) :
    DropsMarkers n (t :: before) (t :: after)
| drop {n : Nat} {before after : List (List Char)}
    (hRest : DropsMarkers n before after) :
    DropsMarkers (n + 1) (['>'] :: before) after

variable {m n : Nat} {a b c d : List (List Char)}

theorem DropsMarkers.refl
    (ts : List (List Char)) :
    DropsMarkers 0 ts ts := by
  induction ts with
  | nil => exact .nil
  | cons t ts ih => exact .keep t ih

theorem DropsMarkers.append
    (hFirst : DropsMarkers m a b)
    (hRest : DropsMarkers n c d) :
    DropsMarkers (m + n) (a ++ c) (b ++ d) := by
  induction hFirst with
  | nil => simpa using hRest
  | keep t _ ih => exact .keep t ih
  | drop _ ih =>
      rw [Nat.add_right_comm]
      exact .drop ih

/- What is no marker is all kept, and the markers counted. -/
theorem DropsMarkers.counts
    (hDrops : DropsMarkers n a b) :
    a.filter (· ≠ ['>']) = b.filter (· ≠ ['>']) ∧
      a.count ['>'] = b.count ['>'] + n := by
  induction hDrops with
  | nil => exact ⟨rfl, rfl⟩
  | keep t _ ih =>
      refine ⟨?_, ?_⟩
      · rw [List.filter_cons, List.filter_cons, ih.1]
      · rw [List.count_cons, List.count_cons, ih.2]
        omega
  | drop _ ih =>
      refine ⟨?_, ?_⟩
      · rw [List.filter_cons_of_neg (by simp), ih.1]
      · rw [List.count_cons_self, ih.2]
        omega

/- Words with the counted markers left out are accounted for. -/
theorem not_mismatch_of_drops
    {before after : List Char}
    (hDrops : DropsMarkers n (tokens before) (tokens after))
    (x y : Nat) :
    tokenVerdictAccounted before after n ≠ .mismatch x y := by
  have hCounts := hDrops.counts
  unfold tokenVerdictAccounted tokenVerdict
  simp only
  by_cases hSame : tokens before = tokens after
  · rw [if_pos hSame]
    exact TokenVerdict.noConfusion
  · have hDropped :
        (tokens before).count ['>'] -
          (tokens after).count ['>'] = n := by
      omega
    rw [if_neg hSame, if_pos hCounts.1, if_pos (by omega),
      hDropped]
    simp

/- The characters of the words that are no marker. -/
def weight
    (ts : List (List Char)) : Nat :=
  (ts.map (fun t => if t = ['>'] then 0 else t.length)).sum

theorem weight_append
    (a b : List (List Char)) :
    weight (a ++ b) = weight a + weight b := by
  unfold weight
  rw [List.map_append, List.sum_append]

theorem weight_cons
    (t : List Char)
    (ts : List (List Char)) :
    weight (t :: ts) =
      (if t = ['>'] then 0 else t.length) + weight ts := by
  unfold weight
  rw [List.map_cons, List.sum_cons]

theorem DropsMarkers.weight_eq
    (hDrops : DropsMarkers n a b) :
    weight a = weight b := by
  induction hDrops with
  | nil => rfl
  | keep t _ ih => rw [weight_cons, weight_cons, ih]
  | drop _ ih => rw [weight_cons, if_pos rfl, Nat.zero_add, ih]

end Reflow

------------------------------------------------------------
-- Quote Markers
------------------------------------------------------------

namespace Reflow

open RustText

/- Whether a line's quote marker is written against a word. -/
def gluedMarker
    (line : Line) : Bool :=
  match trimStart line with
  | '>' :: c :: _ => !isWhitespace c
  | _ => false

theorem exists_of_isBlockquote
    {line : Line}
    (hQuoted : isBlockquote line = true) :
    ∃ rest, trimStart line = '>' :: rest := by
  unfold isBlockquote startsWith at hQuoted
  rw [List.isPrefixOf_iff_prefix] at hQuoted
  rcases hQuoted with ⟨rest, hRest⟩
  exact ⟨rest, hRest.symm⟩

theorem tokens_trimStart
    (line : Line) :
    tokens (trimStart line) = tokens line :=
  Words.words_dropWhile line

theorem tokens_quoteBody
    {line rest : Line}
    (hLine : trimStart line = '>' :: rest) :
    tokens (quoteBody line) = tokens rest := by
  unfold quoteBody
  rw [hLine]
  simp only
  split
  · exact (Words.words_cons rfl _).symm
  · rfl

/- The words of a line whose marker stands alone. -/
theorem tokens_loose
    {line : Line}
    (hQuoted : isBlockquote line = true)
    (hLoose : gluedMarker line = false) :
    tokens line = ['>'] :: tokens (quoteBody line) := by
  rcases exists_of_isBlockquote hQuoted with ⟨rest, hLine⟩
  rw [tokens_quoteBody hLine, ← tokens_trimStart, hLine]
  unfold gluedMarker at hLoose
  rw [hLine] at hLoose
  unfold tokens
  cases rest with
  | nil => exact Words.words_single (by decide)
  | cons c rest =>
      have hBlank : isWhitespace c = true := by
        simpa using hLoose
      have hSplit :
          '>' :: c :: rest = ['>'] ++ c :: rest := rfl
      rw [hSplit, Words.words_append hBlank,
        Words.words_single (by decide),
        Words.words_cons hBlank]
      rfl

/- The first word of a line whose marker is glued to it. -/
theorem tokens_glued
    {line : Line}
    (hGlued : gluedMarker line = true) :
    ∃ word more, word ≠ [] ∧
      tokens line = ('>' :: word) :: more ∧
      tokens (quoteBody line) = word :: more := by
  unfold gluedMarker at hGlued
  split at hGlued
  · rename_i c rest hLine
    have hBare : isWhitespace c = false := by simpa using hGlued
    have hWord := Words.words_cons_bare hBare rest
    rcases hWord with ⟨word, more, hNonempty, hTokens, hCons⟩
    refine ⟨word, more, hNonempty, ?_, ?_⟩
    · rw [← tokens_trimStart, hLine]
      exact hCons '>' (by decide)
    · rw [tokens_quoteBody hLine]
      exact hTokens
  · cases hGlued

end Reflow

------------------------------------------------------------
-- Units
------------------------------------------------------------

namespace Reflow

/- What a join leaves out of a quoted line is the marker. -/
theorem drops_rest
    {rest : List Line}
    (hQuoted : ∀ l ∈ rest, isBlockquote l = true)
    (hLoose : ∀ l ∈ rest, gluedMarker l = false) :
    DropsMarkers (rest.filter isBlockquote).length
      (rest.flatMap tokens)
      (rest.flatMap (fun l => tokens (quoteBody l))) := by
  induction rest with
  | nil => exact .nil
  | cons l rest ih =>
      have hHere := hQuoted l List.mem_cons_self
      have hLater :=
        ih (fun k hMember =>
            hQuoted k (List.mem_cons_of_mem l hMember))
          (fun k hMember =>
            hLoose k (List.mem_cons_of_mem l hMember))
      rw [List.filter_cons_of_pos hHere, List.length_cons,
        List.flatMap_cons, List.flatMap_cons,
        tokens_loose hHere (hLoose l List.mem_cons_self)]
      have hBody := DropsMarkers.refl (tokens (quoteBody l))
      have hBoth := hBody.append hLater
      rw [Nat.zero_add] at hBoth
      exact .drop hBoth

/- A quoted line's body weighs no more, and less if glued. -/
theorem weight_quoteBody
    {line : Line}
    (hQuoted : isBlockquote line = true) :
    weight (tokens (quoteBody line)) ≤ weight (tokens line) ∧
      (gluedMarker line = true →
        weight (tokens (quoteBody line)) <
          weight (tokens line)) := by
  cases hGlued : gluedMarker line with
  | false =>
      rw [tokens_loose hQuoted hGlued, weight_cons, if_pos rfl,
        Nat.zero_add]
      exact ⟨Nat.le_refl _, fun hFalse => by cases hFalse⟩
  | true =>
      rcases tokens_glued hGlued with
        ⟨word, more, hWord, hLine, hBody⟩
      have hLonger : '>' :: word ≠ ['>'] := by
        simpa using hWord
      have hLess :
          weight (tokens (quoteBody line)) <
            weight (tokens line) := by
        rw [hLine, hBody, weight_cons, weight_cons,
          if_neg hLonger, List.length_cons]
        split <;> omega
      exact ⟨Nat.le_of_lt hLess, fun _ => hLess⟩

theorem weight_rest
    {rest : List Line}
    (hQuoted : ∀ l ∈ rest, isBlockquote l = true) :
    weight (rest.flatMap (fun l => tokens (quoteBody l))) ≤
        weight (rest.flatMap tokens) ∧
      ((∃ l ∈ rest, gluedMarker l = true) →
        weight (rest.flatMap (fun l => tokens (quoteBody l))) <
          weight (rest.flatMap tokens)) := by
  induction rest with
  | nil => simp
  | cons l rest ih =>
      have hHere := weight_quoteBody (hQuoted l List.mem_cons_self)
      have hLater :=
        ih (fun k hMember =>
          hQuoted k (List.mem_cons_of_mem l hMember))
      rw [List.flatMap_cons, List.flatMap_cons, weight_append,
        weight_append]
      refine ⟨Nat.add_le_add hHere.1 hLater.1, ?_⟩
      rintro ⟨k, hMember, hGlued⟩
      rcases List.mem_cons.mp hMember with rfl | hThere
      · have hLess := hHere.2 hGlued
        have hRest := hLater.1
        omega
      · have hLess := hLater.2 ⟨k, hThere, hGlued⟩
        have hLine := hHere.1
        omega

/- No continuation of a quoted unit has its marker glued. -/
def LooseMarkers
    (lines : List Line)
    (w : WrappedParagraph) : Prop :=
  isBlockquote (lineAt lines w.start) = true →
    ∀ j, w.start < j → j ≤ w.stop →
      gluedMarker (lineAt lines j) = false

variable {isOpaque : List Bool} {lines : List Line}
variable {w : WrappedParagraph}

theorem isBlockquote_unitRest
    (hUnit :
      IsUnit (classify isOpaque lines) lines w.start w.stop)
    (hQuoted : isBlockquote (lineAt lines w.start) = true) :
    ∀ l ∈ unitRest lines w, isBlockquote l = true := by
  intro l hMember
  rcases mem_unitRest hMember with ⟨j, hStart, hStop, rfl⟩
  exact (isBlockquote_unit hUnit (by omega) hStop).trans hQuoted

/- The words of a unit's lines. -/
theorem unit_words
    (hLt : w.start < w.stop) :
    (List.range' w.start (w.stop + 1 - w.start)).flatMap
        (fun j => tokens (lineAt lines j)) =
      tokens (lineAt lines w.start) ++
        (unitRest lines w).flatMap tokens := by
  have hCount : w.stop + 1 - w.start = w.stop - w.start + 1 := by
    omega
  rw [hCount, List.range'_succ, List.flatMap_cons, unitRest,
    List.flatMap_map]

theorem tokens_unitLine
    (lines : List Line)
    (w : WrappedParagraph) :
    tokens (unitLine lines w) =
      tokens (lineAt lines w.start) ++
        if isBlockquote (lineAt lines w.start) then
          (unitRest lines w).flatMap
            (fun l => tokens (quoteBody l))
        else (unitRest lines w).flatMap tokens := by
  unfold unitLine
  rw [tokens_flatten]
  split <;> rfl

/- A unit of loose markers loses them and no more. -/
theorem drops_unit
    (hUnit :
      IsUnit (classify isOpaque lines) lines w.start w.stop)
    (hLoose : LooseMarkers lines w) :
    DropsMarkers (markers lines w)
      ((List.range' w.start (w.stop + 1 - w.start)).flatMap
        (fun j => tokens (lineAt lines j)))
      (tokens (unitLine lines w)) := by
  have hFirst :=
    DropsMarkers.refl (tokens (lineAt lines w.start))
  rw [unit_words hUnit.lt, tokens_unitLine]
  unfold markers
  cases hQuoted : isBlockquote (lineAt lines w.start) with
  | false =>
      exact hFirst.append (DropsMarkers.refl _)
  | true =>
      have hRest :
          ∀ l ∈ unitRest lines w, gluedMarker l = false := by
        intro l hMember
        rcases mem_unitRest hMember with ⟨j, hStart, hStop, rfl⟩
        exact hLoose hQuoted j hStart hStop
      have hBoth :=
        hFirst.append
          (drops_rest (isBlockquote_unitRest hUnit hQuoted) hRest)
      rw [Nat.zero_add] at hBoth
      exact hBoth

/- A join adds no weight, and takes some from a glued marker. -/
theorem weight_unit
    (hUnit :
      IsUnit (classify isOpaque lines) lines w.start w.stop) :
    weight (tokens (unitLine lines w)) ≤
        weight
          ((List.range' w.start (w.stop + 1 - w.start)).flatMap
            (fun j => tokens (lineAt lines j))) ∧
      (¬ LooseMarkers lines w →
        weight (tokens (unitLine lines w)) <
          weight
            ((List.range' w.start
              (w.stop + 1 - w.start)).flatMap
                (fun j => tokens (lineAt lines j)))) := by
  rw [unit_words hUnit.lt, tokens_unitLine, weight_append,
    weight_append]
  cases hQuoted : isBlockquote (lineAt lines w.start) with
  | false =>
      refine ⟨Nat.le_refl _, ?_⟩
      intro hGlued
      refine absurd ?_ hGlued
      intro hTrue
      rw [hQuoted] at hTrue
      cases hTrue
  | true =>
      have hRest := weight_rest (isBlockquote_unitRest hUnit hQuoted)
      refine ⟨Nat.add_le_add_left hRest.1 _, ?_⟩
      intro hGlued
      refine Nat.add_lt_add_left (hRest.2 ?_) _
      unfold LooseMarkers at hGlued
      push Not at hGlued
      rcases hGlued with ⟨-, j, hStart, hStop, hLine⟩
      refine ⟨lineAt lines j, ?_, by simpa using hLine⟩
      refine List.mem_map.mpr ⟨j, ?_, rfl⟩
      rw [List.mem_range'_1]
      omega

end Reflow

------------------------------------------------------------
-- Runs
------------------------------------------------------------

namespace Reflow

variable {lowercase : Char → Bool} {isOpaque : List Bool}
variable {lines : List Line}

/- The words of the lines from one on. -/
def wordsFrom
    (lines : List Line)
    (i : Nat) : List (List Char) :=
  (List.range' i (lines.length - i)).flatMap
    (fun j => tokens (lineAt lines j))

theorem wordsFrom_succ
    {i : Nat}
    (hLt : i < lines.length) :
    wordsFrom lines i =
      tokens (lineAt lines i) ++ wordsFrom lines (i + 1) := by
  have hCount : lines.length - i = lines.length - (i + 1) + 1 := by
    omega
  unfold wordsFrom
  rw [hCount, List.range'_succ, List.flatMap_cons]

theorem wordsFrom_unit
    {w : WrappedParagraph}
    (hLt : w.start < w.stop)
    (hBound : w.stop < lines.length) :
    wordsFrom lines w.start =
      (List.range' w.start (w.stop + 1 - w.start)).flatMap
          (fun j => tokens (lineAt lines j)) ++
        wordsFrom lines (w.stop + 1) := by
  unfold wordsFrom
  rw [range'_split hLt hBound, List.flatMap_append]

theorem wordsFrom_end :
    wordsFrom lines lines.length = [] := by
  unfold wordsFrom
  rw [Nat.sub_self]
  rfl

theorem tokens_textOf
    (lines : List Line) :
    tokens (textOf lines) = lines.flatMap tokens :=
  Words.words_intercalate rfl lines

theorem wordsFrom_zero
    (lines : List Line) :
    wordsFrom lines 0 = tokens (textOf lines) := by
  have hAll := drop_eq_map lines (Nat.zero_le lines.length)
  rw [List.drop_zero] at hAll
  unfold wordsFrom
  rw [tokens_textOf]
  conv => rhs; rw [hAll]
  rw [List.flatMap_map]

/- Units of loose markers lose as many as are counted. -/
theorem drops_reflow
    (hLoose :
      ∀ w ∈ detect lowercase isOpaque lines,
        LooseMarkers lines w) :
    DropsMarkers (reflowWithStats lowercase isOpaque lines).2
      (tokens (textOf lines))
      (tokens
        (textOf
          (reflowWithStats lowercase isOpaque lines).1)) := by
  rw [← wordsFrom_zero, tokens_textOf]
  apply reflow_induction
    (motive := fun i r =>
      DropsMarkers r.2 (wordsFrom lines i) (r.1.flatMap tokens))
  · rw [wordsFrom_end]
    exact .nil
  · intro i later hLt _ hLater
    have hLine := DropsMarkers.refl (tokens (lineAt lines i))
    have hBoth := hLine.append hLater
    rw [Nat.zero_add] at hBoth
    rw [wordsFrom_succ hLt, List.flatMap_cons]
    exact hBoth
  · intro w hW later hLater
    have hUnit := isUnit_of_mem_detect hW
    rw [wordsFrom_unit hUnit.lt hUnit.bound, List.flatMap_cons]
    exact (drops_unit hUnit (hLoose w hW)).append hLater

/-
  A reflow adds no weight, and takes some when a unit from
  the line on has a glued marker.
-/
theorem weight_reflow
    (hGlued :
      ∃ w ∈ detect lowercase isOpaque lines,
        ¬ LooseMarkers lines w) :
    weight
        (tokens
          (textOf
            (reflowWithStats lowercase isOpaque lines).1)) <
      weight (tokens (textOf lines)) := by
  have hRun :
      weight
          ((reflowWithStats lowercase isOpaque
            lines).1.flatMap tokens) ≤
          weight (wordsFrom lines 0) ∧
        ((∃ w ∈ detect lowercase isOpaque lines,
            0 ≤ w.start ∧ ¬ LooseMarkers lines w) →
          weight
              ((reflowWithStats lowercase isOpaque
                lines).1.flatMap tokens) <
            weight (wordsFrom lines 0)) := by
    apply reflow_induction
      (motive := fun i r =>
        weight (r.1.flatMap tokens) ≤
            weight (wordsFrom lines i) ∧
          ((∃ w ∈ detect lowercase isOpaque lines,
              i ≤ w.start ∧ ¬ LooseMarkers lines w) →
            weight (r.1.flatMap tokens) <
              weight (wordsFrom lines i)))
    · rw [wordsFrom_end]
      refine ⟨Nat.le_refl _, ?_⟩
      rintro ⟨w, hW, hFrom, -⟩
      have hUnit := isUnit_of_mem_detect hW
      have hWide := hUnit.lt
      have hBound := hUnit.bound
      omega
    · intro i later hLt hOutside hLater
      rw [wordsFrom_succ hLt, List.flatMap_cons, weight_append,
        weight_append]
      refine ⟨Nat.add_le_add_left hLater.1 _, ?_⟩
      rintro ⟨w, hW, hFrom, hSome⟩
      have hWide := (isUnit_of_mem_detect hW).lt
      have hSide := hOutside w hW
      exact
        Nat.add_lt_add_left
          (hLater.2 ⟨w, hW, by omega, hSome⟩) _
    · intro w hW later hLater
      have hUnit := isUnit_of_mem_detect hW
      have hWide := hUnit.lt
      have hHere := weight_unit hUnit
      rw [wordsFrom_unit hUnit.lt hUnit.bound,
        List.flatMap_cons, weight_append, weight_append]
      refine ⟨Nat.add_le_add hHere.1 hLater.1, ?_⟩
      rintro ⟨v, hV, hFrom, hSome⟩
      have hWideV := (isUnit_of_mem_detect hV).lt
      rcases detect_apart hV hW with rfl | hBefore | hAfter
      · have hLess := hHere.2 hSome
        have hRest := hLater.1
        omega
      · omega
      · have hLess := hLater.2 ⟨v, hV, hAfter, hSome⟩
        have hUnitLess := hHere.1
        omega
  rcases hGlued with ⟨w, hW, hSome⟩
  rw [tokens_textOf, ← wordsFrom_zero]
  exact hRun.2 ⟨w, hW, Nat.zero_le _, hSome⟩

end Reflow

------------------------------------------------------------
-- Results
------------------------------------------------------------

namespace Reflow

/- A unit's line has its first line's indent, and its ends. -/
structure KeepsEnds
    (lines : List Line)
    (w : WrappedParagraph)
    (line : Line) : Prop where
  indent : indentOf line = indentOf (lineAt lines w.start)
  hardBreak :
    hasHardBreak line = hasHardBreak (lineAt lines w.stop)
  carriage :
    endsWith line "\r" = endsWith (lineAt lines w.stop) "\r"

/-
  A reflow that keeps the words: they are those of the
  lines with the counted quote markers left out, which the
  check accepts; and each unit's place is taken by one line
  that keeps the unit's ends, each other line being kept.
-/
structure KeepsWords
    (lowercase : Char → Bool)
    (isOpaque : List Bool)
    (lines : List Line) : Prop where
  tokens :
    DropsMarkers (reflowWithStats lowercase isOpaque lines).2
      (tokens (textOf lines))
      (tokens
        (textOf (reflowWithStats lowercase isOpaque lines).1))
  verdict :
    ∀ before after,
      tokenVerdictAccounted (textOf lines)
          (textOf (reflowWithStats lowercase isOpaque lines).1)
          (reflowWithStats lowercase isOpaque lines).2 ≠
        .mismatch before after
  units :
    ∃ lineOf : WrappedParagraph → Line,
      (reflowWithStats lowercase isOpaque lines).1 =
          assemble lines (detect lowercase isOpaque lines)
            lineOf ∧
        ∀ w ∈ detect lowercase isOpaque lines,
          KeepsEnds lines w (lineOf w)

variable {lowercase : Char → Bool} {isOpaque : List Bool}
variable {lines : List Line} {w : WrappedParagraph}

/- The line of a unit keeps its ends if no slash is loose. -/
theorem keepsEnds_unitLine
    (hUnit :
      IsUnit (classify isOpaque lines) lines w.start w.stop) :
    KeepsEnds lines w (unitLine lines w) ↔
      looseSlash (lineAt lines w.stop) = false := by
  rcases trim_unit hUnit with ⟨hFirst, hRest⟩
  have hLast :
      (lineAt lines w.start :: unitRest lines w).getLast
          (List.cons_ne_nil _ _) = lineAt lines w.stop :=
    getLast_unit hUnit.lt
  have hBreak := hasHardBreak_flatten hFirst hRest
  have hReturn := endsWith_return_flatten hFirst hRest
  rw [hLast] at hBreak hReturn
  constructor
  · intro hKeeps
    have hSame := hKeeps.hardBreak
    unfold unitLine at hSame
    rw [hBreak] at hSame
    cases hSlash : looseSlash (lineAt lines w.stop) with
    | false => rfl
    | true =>
        rw [hSlash, Bool.or_true] at hSame
        unfold looseSlash at hSlash
        rw [← hSame] at hSlash
        simp at hSlash
  · intro hSlash
    rw [hSlash, Bool.or_false] at hBreak
    exact ⟨indentOf_flatten hFirst hRest, hBreak, hReturn⟩

/- Lists of pieces that agree in length agree in each piece. -/
theorem eq_of_flatMap_eq
    {f g : Nat → List Line}
    {places : List Nat}
    (hLength : ∀ i ∈ places, (f i).length = (g i).length)
    (hEq : places.flatMap f = places.flatMap g) :
    ∀ i ∈ places, f i = g i := by
  induction places with
  | nil => simp
  | cons i places ih =>
      rw [List.flatMap_cons, List.flatMap_cons] at hEq
      have hBoth :=
        List.append_inj hEq (hLength i List.mem_cons_self)
      intro j hMember
      rcases List.mem_cons.mp hMember with rfl | hThere
      · exact hBoth.1
      · exact
          ih (fun k hK => hLength k (List.mem_cons_of_mem i hK))
            hBoth.2 j hThere

theorem length_placed
    (lines : List Line)
    (hot : List WrappedParagraph)
    (lineOf lineOf' : WrappedParagraph → Line)
    (i : Nat) :
    (placed lines hot lineOf i).length =
      (placed lines hot lineOf' i).length := by
  unfold placed
  split <;> rfl

/- The lines in the units' places are known from the result. -/
theorem assemble_inj
    {lineOf lineOf' : WrappedParagraph → Line}
    (hEq :
      assemble lines (detect lowercase isOpaque lines) lineOf =
        assemble lines (detect lowercase isOpaque lines)
          lineOf')
    (hW : w ∈ detect lowercase isOpaque lines) :
    lineOf w = lineOf' w := by
  have hUnit := isUnit_of_mem_detect hW
  have hWide := hUnit.lt
  have hBound := hUnit.bound
  have hPlace :=
    eq_of_flatMap_eq
      (fun i _ => length_placed lines _ lineOf lineOf' i) hEq
      w.start (List.mem_range.mpr (by omega))
  rw [placed_start lineOf hW, placed_start lineOf' hW] at hPlace
  exact List.singleton_inj.mp hPlace

/-
  A reflow keeps the words exactly when no unit has a glued
  marker to leave out, nor ends in a loose backslash.
-/
theorem keepsWords_iff
    (lowercase : Char → Bool)
    (isOpaque : List Bool)
    (lines : List Line) :
    KeepsWords lowercase isOpaque lines ↔
      ∀ w ∈ detect lowercase isOpaque lines,
        LooseMarkers lines w ∧
          looseSlash (lineAt lines w.stop) = false := by
  have hPlaced := reflow_placed lowercase isOpaque lines
  constructor
  · intro hKeeps w hW
    constructor
    · by_contra hGlued
      have hLess := weight_reflow ⟨w, hW, hGlued⟩
      have hSame := hKeeps.tokens.weight_eq
      omega
    · rcases hKeeps.units with ⟨lineOf, hOut, hEnds⟩
      have hLine := assemble_inj (hOut.symm.trans hPlaced) hW
      have hUnit := hEnds w hW
      rw [hLine] at hUnit
      exact
        (keepsEnds_unitLine (isUnit_of_mem_detect hW)).mp hUnit
  · intro hClean
    have hDrops := drops_reflow (fun w hW => (hClean w hW).1)
    refine ⟨hDrops, not_mismatch_of_drops hDrops, ?_⟩
    refine ⟨unitLine lines, hPlaced, ?_⟩
    intro w hW
    exact
      (keepsEnds_unitLine (isUnit_of_mem_detect hW)).mpr
        (hClean w hW).2

/- A quote whose second line has its marker glued. -/
def gluedQuote : List Line :=
  ["> The first quoted paragraph runs long enough to sit inside the band".toList,
    ">and it continues here mid-phrase so the mid-break count reaches it".toList]

theorem not_keepsWords_gluedQuote :
    ¬ KeepsWords Char.isLower [] gluedQuote := by
  intro hKeeps
  refine hKeeps.verdict 24 24 ?_
  decide +kernel

end Reflow
