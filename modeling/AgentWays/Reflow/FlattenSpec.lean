import AgentWays.Reflow.UnitsSpec
import AgentWays.Lib.TextSpec
import AgentWays.Lib.Framing
import Mathlib.Data.List.Chain

/-
  What one join does: a unit's lines become one line, with
  the words of each, the first line's indent and the last
  line's carriage return and, with one exception, its hard
  break.

  Key definitions include:
    * `Reflow.restored`
    * `Reflow.looseSlash`

  Main declarations:
    * `Reflow.joinLines_of_chain`
    * `Reflow.tokens_flatten`
    * `Reflow.hasHardBreak_flatten`
-/

------------------------------------------------------------
-- One Line
------------------------------------------------------------

namespace Reflow

open RustText

theorem of_not_startsJoinBlock
    {line prev : Line}
    (hJoin : startsJoinBlock line prev = false) :
    isBlockquote line = isBlockquote prev ∧
      hasHardBreak prev = false := by
  unfold startsJoinBlock at hJoin
  simp only [Bool.or_eq_false_iff, bne_eq_false_iff_eq] at hJoin
  exact ⟨hJoin.1.2, hJoin.2⟩

/- A block whose lines may all be joined is joined to one. -/
theorem joinLines_of_chain
    {block lines : List Line}
    (hChain :
      (block ++ lines).IsChain
        (fun prev line => startsJoinBlock line prev = false)) :
    joinLines block lines = flushBlock (block ++ lines) := by
  induction lines generalizing block with
  | nil => rw [List.append_nil]; rfl
  | cons line rest ih =>
      have hSplit :
          block ++ line :: rest = (block ++ [line]) ++ rest := by
        simp
      have hFirst :
          block.getLast?.any (startsJoinBlock line) = false := by
        rcases List.isChain_append.mp hChain with ⟨-, -, hEnds⟩
        cases hLast : block.getLast? with
        | none => rfl
        | some prev => exact hEnds prev hLast line rfl
      have hRest :
          joinLines (block ++ [line]) rest =
            flushBlock ((block ++ [line]) ++ rest) :=
        ih (hSplit ▸ hChain)
      unfold joinLines
      simp only [hFirst, Bool.false_eq_true, if_false,
        List.nil_append, Nat.zero_add]
      cases hBreak : hasHardBreak line with
      | false =>
          rw [hSplit]
          exact hRest
      | true =>
          have hEnd : rest = [] := by
            cases rest with
            | nil => rfl
            | cons next more =>
                rcases List.isChain_append.mp hChain with
                  ⟨-, hTail, -⟩
                have hStep :
                    startsJoinBlock next line = false :=
                  hTail.rel_head? rfl
                rw [(of_not_startsJoinBlock hStep).2] at hBreak
                cases hBreak
          subst hEnd
          simp [joinLines, flushBlock]

end Reflow

------------------------------------------------------------
-- Ends
------------------------------------------------------------

namespace Reflow

open RustText

theorem trim_cases
    {line : Line}
    (hText : trim line ≠ []) :
    (∃ c more, trim line = c :: more ∧
        isWhitespace c = false) ∧
      ∃ front c, trim line = front ++ [c] ∧
        isWhitespace c = false := by
  constructor
  · cases hStart : trimStart line with
    | nil =>
        unfold trim at hText
        rw [hStart] at hText
        exact absurd rfl hText
    | cons c rest =>
        have hBare : isWhitespace c = false := by
          have hHead := head?_dropWhile isWhitespace line
          unfold trimStart at hStart
          rw [hStart] at hHead
          simpa using hHead
        unfold trim trimEnd
        rw [hStart]
        have hPrefix :=
          List.rdropWhile_prefix isWhitespace (c :: rest)
        cases hTrim : (c :: rest).rdropWhile isWhitespace with
        | nil =>
            rw [List.rdropWhile_eq_nil_iff] at hTrim
            rw [hTrim c List.mem_cons_self] at hBare
            cases hBare
        | cons d more =>
            rw [hTrim, List.cons_prefix_cons] at hPrefix
            exact ⟨d, more, rfl, hPrefix.1 ▸ hBare⟩
  · have hLast :=
      List.rdropWhile_last_not isWhitespace (trimStart line)
        hText
    refine ⟨(trim line).dropLast, (trim line).getLast hText,
      (List.dropLast_append_getLast hText).symm, ?_⟩
    exact Bool.eq_false_iff.mpr hLast

theorem rdropWhile_append
    {p : Char → Bool}
    {x s : List Char}
    (hKept : s.rdropWhile p ≠ []) :
    (x ++ s).rdropWhile p = x ++ s.rdropWhile p := by
  induction s using List.reverseRecOn with
  | nil => exact absurd rfl hKept
  | append_singleton s c ih =>
      rw [← List.append_assoc]
      by_cases hC : p c = true
      · rw [List.rdropWhile_concat_pos p s c hC] at hKept ⊢
        rw [List.rdropWhile_concat_pos p _ c hC, ih hKept]
      · rw [List.rdropWhile_concat_neg p s c hC,
          List.rdropWhile_concat_neg p _ c hC,
          List.append_assoc]

theorem rdropWhile_append_of_all
    {p : Char → Bool}
    {x s : List Char}
    (hAll : ∀ c ∈ s, p c = true) :
    (x ++ s).rdropWhile p = x.rdropWhile p := by
  induction s using List.reverseRecOn with
  | nil => rw [List.append_nil]
  | append_singleton s c ih =>
      rw [← List.append_assoc,
        List.rdropWhile_concat_pos p _ c (hAll c (by simp)),
        ih (fun d hMember => hAll d (by simp [hMember]))]

/- The last character of a line that is not blank. -/
def bareEnd
    (line : Line) : Option Char :=
  (trimEnd line).getLast?

theorem bareEnd_suffix
    {s line : Line}
    (hSuffix : s <:+ line)
    (hText : trimEnd s ≠ []) :
    bareEnd s = bareEnd line := by
  rcases hSuffix with ⟨x, rfl⟩
  unfold bareEnd trimEnd at *
  rw [rdropWhile_append hText,
    List.getLast?_append_of_ne_nil _ hText]

theorem quoteBody_suffix
    (line : Line) :
    quoteBody line <:+ line := by
  have hTrim : trimStart line <:+ line :=
    List.dropWhile_suffix isWhitespace
  unfold quoteBody
  split
  · rename_i rest hLine
    have hRest : rest <:+ line :=
      (hLine ▸ List.suffix_cons '>' rest).trans (hLine ▸ hTrim)
    split
    · exact (List.suffix_cons _ _).trans hRest
    · exact hRest
  · exact hTrim

/- A line that ends in a backslash before its hard break. -/
def looseSlash
    (line : Line) : Bool :=
  !hasHardBreak line && bareEnd line == some '\\'

end Reflow

------------------------------------------------------------
-- The Joined Line
------------------------------------------------------------

namespace Reflow

open RustText

/- A line of a block as the join writes it. -/
def pieceOf
    (first line : Line) : Line :=
  trim (if isBlockquote first then quoteBody line else line)

/- The line of a block, and what is put back after it. -/
def restored
    (last : Line) : Line :=
  (if endsWith (withoutNewline last) "  " then [' ', ' ']
    else []) ++
    if endsWith last "\r" then ['\r'] else []

theorem flatten_eq
    (first : Line)
    (rest : List Line) :
    flatten first rest =
      indentOf first ++
        ([' '].intercalate
            (trim first :: rest.map (pieceOf first)) ++
          restored
            ((first :: rest).getLast (List.cons_ne_nil _ _))) := by
  unfold flatten restored pieceOf
  simp only [List.append_assoc]

theorem indentOf_blank
    (line : Line) :
    ∀ c ∈ indentOf line, isWhitespace c = true :=
  fun _ hMember => List.mem_takeWhile_imp hMember

theorem restored_blank
    (last : Line) :
    ∀ c ∈ restored last, isWhitespace c = true := by
  intro c hMember
  unfold restored at hMember
  rcases List.mem_append.mp hMember with hSpaces | hReturn
  · split at hSpaces
    · rcases List.mem_pair.mp hSpaces with rfl | rfl <;> rfl
    · cases hSpaces
  · split at hReturn
    · rw [List.mem_singleton.mp hReturn]
      rfl
    · cases hReturn

theorem tokens_trim
    (line : Line) :
    tokens (trim line) = tokens line :=
  Words.words_trim line

/- The words of a joined block are those of its pieces. -/
theorem tokens_flatten
    (first : Line)
    (rest : List Line) :
    tokens (flatten first rest) =
      tokens first ++
        rest.flatMap
          (fun l =>
            tokens
              (if isBlockquote first then quoteBody l else l)) := by
  rw [flatten_eq]
  unfold tokens
  rw [Words.words_breaks_append (indentOf_blank first),
    Words.words_append_breaks _ (restored_blank _),
    Words.words_intercalate rfl, List.flatMap_cons,
    List.flatMap_map]
  congr 1
  · exact tokens_trim first
  · congr 1
    funext l
    exact tokens_trim _

/- The text of a block is a line that is bare at both ends. -/
theorem joined_cases
    {first : Line}
    {rest : List Line}
    (hFirst : trim first ≠ [])
    (hRest : ∀ l ∈ rest, pieceOf first l ≠ []) :
    (∃ c more,
        [' '].intercalate
            (trim first :: rest.map (pieceOf first)) =
          c :: more ∧ isWhitespace c = false) ∧
      ∃ front c,
        [' '].intercalate
            (trim first :: rest.map (pieceOf first)) =
          front ++ [c] ∧
        isWhitespace c = false ∧
        bareEnd
          ((first :: rest).getLast (List.cons_ne_nil _ _)) =
            some c := by
  constructor
  · rcases (trim_cases hFirst).1 with ⟨c, more, hTrim, hBare⟩
    cases rest with
    | nil =>
        rw [List.map_nil, List.intercalate_singleton]
        exact ⟨c, more, hTrim, hBare⟩
    | cons l rest =>
        rw [List.map_cons, List.intercalate_cons_cons, hTrim]
        exact ⟨c, _, by rw [List.cons_append, List.cons_append],
          hBare⟩
  · have hPiece :
        ∀ s line : Line, s <:+ line → trim s ≠ [] →
          ∃ front c, trim s = front ++ [c] ∧
            isWhitespace c = false ∧ bareEnd line = some c := by
      intro s line hSuffix hText
      rcases (trim_cases hText).2 with ⟨front, c, hTrim, hBare⟩
      have hStart : trimStart s <:+ line :=
        (List.dropWhile_suffix isWhitespace).trans hSuffix
      have hEnd := bareEnd_suffix hStart hText
      refine ⟨front, c, hTrim, hBare, ?_⟩
      rw [← hEnd]
      unfold bareEnd
      have hSame : trimEnd (trimStart s) = front ++ [c] := hTrim
      rw [hSame, List.getLast?_concat]
    rcases List.eq_nil_or_concat rest with
      rfl | ⟨before, last, hRestEq⟩
    · rcases hPiece first first List.suffix_rfl hFirst with
        ⟨front, c, hTrim, hBare, hEnd⟩
      rw [List.map_nil, List.intercalate_singleton]
      exact ⟨front, c, hTrim, hBare, hEnd⟩
    · rw [List.concat_eq_append] at hRestEq
      subst hRestEq
      have hSuffix :
          (if isBlockquote first then quoteBody last
            else last) <:+ last := by
        split
        · exact quoteBody_suffix last
        · exact List.suffix_rfl
      rcases hPiece _ last hSuffix (hRest last (by simp)) with
        ⟨front, c, hTrim, hBare, hEnd⟩
      rw [List.map_append, ← List.cons_append, List.map_singleton,
        Framing.intercalate_concat]
      have hLast : pieceOf first last = front ++ [c] := hTrim
      refine ⟨_ ++ front, c, by rw [hLast, List.append_assoc],
        hBare, ?_⟩
      rw [← hEnd]
      congr 1
      simp

/- The joined line has the first line's indent. -/
theorem indentOf_flatten
    {first : Line}
    {rest : List Line}
    (hFirst : trim first ≠ [])
    (hRest : ∀ l ∈ rest, pieceOf first l ≠ []) :
    indentOf (flatten first rest) = indentOf first := by
  rcases (joined_cases hFirst hRest).1 with
    ⟨c, more, hJoined, hBare⟩
  have hBlank := indentOf_blank first
  rw [flatten_eq, hJoined]
  unfold indentOf at hBlank ⊢
  rw [List.takeWhile_append_of_pos hBlank,
    List.cons_append, List.takeWhile_cons_of_neg (by simp [hBare]),
    List.append_nil]

theorem endsWith_concat
    (front : Line)
    (c : Char)
    (d : Char) :
    endsWith (front ++ [c]) (String.singleton d) = (c == d) := by
  unfold endsWith
  have hSingle : (String.singleton d).toList = [d] := by simp
  rw [hSingle, Bool.eq_iff_iff, List.isSuffixOf_iff_suffix,
    beq_iff_eq]
  constructor
  · rintro ⟨before, hEq⟩
    exact (List.append_singleton_inj.mp hEq).2.symm
  · rintro rfl
    exact List.suffix_append front [c]

/- A line whose last character is no blank has no spaces. -/
theorem endsWith_spaces_concat
    (front : Line)
    {c : Char}
    (hBare : isWhitespace c = false) :
    endsWith (front ++ [c]) "  " = false := by
  rw [Bool.eq_false_iff]
  unfold endsWith
  rw [ne_eq, List.isSuffixOf_iff_suffix]
  rintro ⟨before, hEq⟩
  have hSpaces : "  ".toList = [' '] ++ [' '] := rfl
  rw [hSpaces, ← List.append_assoc] at hEq
  have hC := (List.append_singleton_inj.mp hEq).2
  rw [← hC] at hBare
  exact absurd hBare (by decide)

theorem withoutNewline_append_return
    (line : Line)
    (ended : Bool) :
    withoutNewline (line ++ if ended then ['\r'] else []) =
      withoutNewline line := by
  unfold withoutNewline
  cases ended with
  | false => simp
  | true =>
      simp only [if_true]
      exact List.rdropWhile_concat_pos _ _ _ (by decide)

theorem withoutNewline_concat
    (front : Line)
    {c : Char}
    (hOther : c ≠ '\r' ∧ c ≠ '\n') :
    withoutNewline (front ++ [c]) = front ++ [c] := by
  unfold withoutNewline
  exact List.rdropWhile_concat_neg _ _ _ (by simp [hOther])

theorem ne_of_bare
    {c : Char}
    (hBare : isWhitespace c = false) :
    c ≠ '\r' ∧ c ≠ '\n' := by
  constructor
  · rintro rfl
    exact absurd hBare (by decide)
  · rintro rfl
    exact absurd hBare (by decide)

/- A line that ends in a backslash shows it at its bare end. -/
theorem bareEnd_of_backslash
    {line : Line}
    (hSlash : endsWith (withoutNewline line) "\\" = true) :
    bareEnd line = some '\\' := by
  unfold endsWith at hSlash
  rw [List.isSuffixOf_iff_suffix] at hSlash
  rcases hSlash with ⟨front, hFront⟩
  have hText : "\\".toList = ['\\'] := rfl
  rw [hText] at hFront
  have hSplit :
      withoutNewline line ++
          line.rtakeWhile (fun c => c = '\r' ∨ c = '\n') =
        line :=
    List.rdropWhile_append_rtakeWhile
  have hBlank :
      ∀ c ∈ line.rtakeWhile (fun c => c = '\r' ∨ c = '\n'),
        isWhitespace c = true := by
    intro c hMember
    have hBreak := List.mem_rtakeWhile_imp hMember
    simp only [decide_eq_true_eq] at hBreak
    rcases hBreak with rfl | rfl <;> decide
  have hTrim : trimEnd line = front ++ ['\\'] := by
    rw [← hSplit, ← hFront]
    unfold trimEnd
    rw [rdropWhile_append_of_all hBlank,
      List.rdropWhile_concat_neg _ _ _ (by decide)]
  unfold bareEnd
  rw [hTrim, List.getLast?_concat]

/-
  A joined line has a hard break when the last line has one,
  or a backslash that its blanks kept from being one.
-/
theorem hasHardBreak_flatten
    {first : Line}
    {rest : List Line}
    (hFirst : trim first ≠ [])
    (hRest : ∀ l ∈ rest, pieceOf first l ≠ []) :
    hasHardBreak (flatten first rest) =
      (hasHardBreak
          ((first :: rest).getLast (List.cons_ne_nil _ _)) ||
        looseSlash
          ((first :: rest).getLast
            (List.cons_ne_nil _ _))) := by
  rcases (joined_cases hFirst hRest).2 with
    ⟨front, c, hJoined, hBare, hEnd⟩
  rw [flatten_eq, hJoined]
  generalize
    (first :: rest).getLast (List.cons_ne_nil first rest) =
      last at hEnd ⊢
  have hSlash :
      endsWith (withoutNewline last) "\\" = true →
        bareEnd last = some '\\' :=
    bareEnd_of_backslash
  rw [hEnd] at hSlash
  unfold restored
  rw [← List.append_assoc, ← List.append_assoc]
  unfold hasHardBreak
  rw [withoutNewline_append_return]
  cases hSpaces : endsWith (withoutNewline last) "  " with
  | true =>
      simp only [if_true, Bool.true_or]
      have hLast :
          indentOf first ++ (front ++ [c]) ++ [' ', ' '] =
            (indentOf first ++ (front ++ [c]) ++ [' ']) ++
              [' '] := by
        simp
      rw [hLast, withoutNewline_concat _ (by decide)]
      have hTwo :
          endsWith
              (indentOf first ++ (front ++ [c]) ++ [' '] ++ [' '])
              "  " = true := by
        unfold endsWith
        rw [List.isSuffixOf_iff_suffix]
        exact ⟨indentOf first ++ (front ++ [c]), by simp⟩
      rw [hTwo, Bool.true_or]
  | false =>
      simp only [Bool.false_eq_true, if_false, List.append_nil,
        Bool.false_or]
      rw [← List.append_assoc,
        withoutNewline_concat _ (ne_of_bare hBare),
        endsWith_spaces_concat _ hBare, Bool.false_or]
      have hChar :
          endsWith (indentOf first ++ front ++ [c]) "\\" =
            (c == '\\') :=
        endsWith_concat _ c '\\'
      rw [hChar]
      unfold looseSlash hasHardBreak
      rw [hSpaces, Bool.false_or, hEnd]
      cases hBreak : endsWith (withoutNewline last) "\\" with
      | true =>
          have hC : c = '\\' := Option.some.inj (hSlash hBreak)
          simp [hC]
      | false => simp

/- The joined line ends in a return as the last line does. -/
theorem endsWith_return_flatten
    {first : Line}
    {rest : List Line}
    (hFirst : trim first ≠ [])
    (hRest : ∀ l ∈ rest, pieceOf first l ≠ []) :
    endsWith (flatten first rest) "\r" =
      endsWith
        ((first :: rest).getLast (List.cons_ne_nil _ _))
        "\r" := by
  rcases (joined_cases hFirst hRest).2 with
    ⟨front, c, hJoined, hBare, -⟩
  rw [flatten_eq, hJoined]
  generalize
    (first :: rest).getLast (List.cons_ne_nil first rest) = last
  have hAt :
      ∀ (before : Line) (d : Char),
        endsWith (before ++ [d]) "\r" = (d == '\r') :=
    fun before d => endsWith_concat before d '\r'
  unfold restored
  cases hReturn : endsWith last "\r" with
  | true =>
      simp only [if_true]
      rw [← List.append_assoc, ← List.append_assoc, hAt]
      rfl
  | false =>
      simp only [Bool.false_eq_true, if_false, List.append_nil]
      split
      · have hLast :
            indentOf first ++ (front ++ [c] ++ [' ', ' ']) =
              (indentOf first ++ (front ++ [c]) ++ [' ']) ++
                [' '] := by
          simp
        rw [hLast, hAt]
        rfl
      · rw [List.append_nil, ← List.append_assoc, hAt,
          beq_eq_false_iff_ne]
        exact (ne_of_bare hBare).1

end Reflow
