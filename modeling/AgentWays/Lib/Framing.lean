import Mathlib.Data.List.Infix
import Mathlib.Data.List.Count
import Mathlib.Algebra.GroupWithZero.Nat

/-
  Texts in lines, and the places of a text where a pattern
  starts.

  A pattern is local to lines when a separator ends every
  place it reads. Its places in lines joined are then those
  of each line. A screened line keeps a mark only where the
  rest of the line vouches for it.

  Key definitions include:
    * `Framing.occurrences`
    * `Framing.Local`
    * `Framing.screen`

  Main declarations:
    * `Framing.occurrences_append`
    * `Framing.occurrences_intercalate`
    * `Framing.occurrences_screen`
    * `Framing.isPrefixOf_screen`
-/

------------------------------------------------------------
-- Occurrences
------------------------------------------------------------

namespace Framing

variable {α : Type}

/- The places of a text that a pattern accepts. -/
def occurrences
    (accepts : List α → Bool)
    (text : List α) : Nat :=
  text.tails.countP accepts

/- A pattern that never reads past a separator. -/
structure Local
    (sep : α)
    (accepts : List α → Bool) : Prop where
  nil : accepts [] = false
  line : ∀ tail rest, accepts (tail ++ sep :: rest) = accepts tail

variable {sep : α} {accepts : List α → Bool}

theorem occurrences_nil
    (hNil : accepts [] = false) :
    occurrences accepts [] = 0 := by
  simp [occurrences, hNil]

theorem occurrences_cons
    (x : α)
    (text : List α) :
    occurrences accepts (x :: text) =
      occurrences accepts text +
        if accepts (x :: text) then 1 else 0 := by
  unfold occurrences
  rw [List.tails_cons, List.countP_cons]

/- A line's places stay its own in front of other lines. -/
theorem occurrences_append
    (hLocal : Local sep accepts)
    (line rest : List α) :
    occurrences accepts (line ++ sep :: rest) =
      occurrences accepts line + occurrences accepts rest := by
  induction line with
  | nil =>
      have hSep := hLocal.line [] rest
      rw [List.nil_append, hLocal.nil] at hSep
      rw [List.nil_append, occurrences_cons, hSep,
        occurrences_nil hLocal.nil]
      simp
  | cons x line ih =>
      have hHere := hLocal.line (x :: line) rest
      rw [List.cons_append] at hHere
      rw [List.cons_append, occurrences_cons, hHere, ih,
        occurrences_cons]
      omega

theorem occurrences_intercalate
    (hLocal : Local sep accepts)
    (lines : List (List α)) :
    occurrences accepts ([sep].intercalate lines) =
      (lines.map (occurrences accepts)).sum := by
  induction lines with
  | nil => exact occurrences_nil hLocal.nil
  | cons line lines ih =>
      cases lines with
      | nil => simp [List.intercalate_singleton]
      | cons next more =>
          rw [List.intercalate_cons_cons, List.append_assoc,
            List.singleton_append, occurrences_append hLocal,
            ih]
          exact List.sum_cons.symm

/- Each line but the last is ended by a separator. -/
theorem intercalate_concat
    (lines : List (List α))
    (last : List α) :
    [sep].intercalate (lines ++ [last]) =
      lines.flatMap (fun line => line ++ [sep]) ++ last := by
  induction lines with
  | nil => simp [List.intercalate_singleton]
  | cons line lines ih =>
      have hRest : lines ++ [last] ≠ [] := by simp
      rw [List.cons_append,
        List.intercalate_cons_of_ne_nil hRest, ih,
        List.flatMap_cons, List.append_assoc (line ++ [sep])]

/- Lines joined to lines, with a separator between. -/
theorem intercalate_append
    {first second : List (List α)}
    (hFirst : first ≠ [])
    (hSecond : second ≠ []) :
    [sep].intercalate (first ++ second) =
      [sep].intercalate first ++
        sep :: [sep].intercalate second := by
  induction first with
  | nil => exact absurd rfl hFirst
  | cons line rest ih =>
      cases rest with
      | nil =>
          rw [List.singleton_append,
            List.intercalate_cons_of_ne_nil hSecond,
            List.intercalate_singleton, List.append_assoc,
            List.singleton_append]
      | cons next rest =>
          have hRest : next :: rest ≠ [] :=
            List.cons_ne_nil _ _
          have hBoth : next :: rest ++ second ≠ [] := by simp
          rw [List.cons_append,
            List.intercalate_cons_of_ne_nil hBoth, ih hRest,
            List.intercalate_cons_of_ne_nil hRest,
            List.append_assoc, List.append_assoc,
            List.append_assoc]

theorem mem_intercalate
    {x : α}
    {lines : List (List α)}
    (hMember : x ∈ [sep].intercalate lines) :
    x = sep ∨ ∃ line ∈ lines, x ∈ line := by
  rcases List.eq_nil_or_concat lines with
    rfl | ⟨lines, last, rfl⟩
  · contradiction
  · rw [List.concat_eq_append] at hMember ⊢
    rw [intercalate_concat] at hMember
    rcases List.mem_append.mp hMember with hEnded | hLast
    · rcases List.mem_flatMap.mp hEnded with
        ⟨line, hLine, hThere⟩
      rcases List.mem_append.mp hThere with hX | hSep
      · exact Or.inr
          ⟨line, List.mem_append_left _ hLine, hX⟩
      · exact Or.inl (List.mem_singleton.mp hSep)
    · exact Or.inr ⟨last, by simp, hLast⟩

/- What is between two lines that the rest does not hold. -/
theorem lines_between
    [DecidableEq α]
    {before inside after : List (List α)}
    {first last : List α}
    (hBefore : first ∉ before)
    (hInside : last ∉ inside) :
    (((before ++ first :: (inside ++ last :: after)).dropWhile
        (fun l => l ≠ first)).drop 1).takeWhile
          (fun l => l ≠ last) = inside := by
  rw [List.dropWhile_append_of_pos, List.dropWhile_cons_of_neg,
    List.drop_one, List.tail_cons, List.takeWhile_append_of_pos,
    List.takeWhile_cons_of_neg, List.append_nil]
  · simp
  · intro l hMember
    rw [decide_eq_true_eq]
    rintro rfl
    exact hInside hMember
  · simp
  · intro l hMember
    rw [decide_eq_true_eq]
    rintro rfl
    exact hBefore hMember

/- A text that a pattern cannot start in is passed over. -/
theorem occurrences_append_of_not_mark
    {mark : α}
    (hMark : ∀ x rest, x ≠ mark → accepts (x :: rest) = false)
    {before : List α}
    (hBefore : mark ∉ before)
    (text : List α) :
    occurrences accepts (before ++ text) =
      occurrences accepts text := by
  induction before with
  | nil => rfl
  | cons x before ih =>
      have hX : x ≠ mark := by
        rintro rfl
        exact hBefore List.mem_cons_self
      rw [List.cons_append, occurrences_cons,
        hMark x _ hX,
        ih (fun hThere =>
          hBefore (List.mem_cons_of_mem x hThere))]
      rfl

theorem occurrences_eq_zero_of_not_mark
    {mark : α}
    (hNil : accepts [] = false)
    (hMark : ∀ x rest, x ≠ mark → accepts (x :: rest) = false)
    {text : List α}
    (hText : mark ∉ text) :
    occurrences accepts text = 0 := by
  have hAll :=
    occurrences_append_of_not_mark hMark hText []
  rw [List.append_nil, occurrences_nil hNil] at hAll
  exact hAll

theorem occurrences_le_of_imp
    {accepts' : List α → Bool}
    (hImp : ∀ t, accepts t = true → accepts' t = true)
    (text : List α) :
    occurrences accepts text ≤ occurrences accepts' text :=
  List.countP_mono_left (fun t _ => hImp t)

/- The places where a fixed word starts. -/
theorem local_isPrefixOf
    [BEq α] [LawfulBEq α]
    {word : List α}
    (hWord : word ≠ [])
    (hSep : sep ∉ word) :
    Local sep (fun t => word.isPrefixOf t) := by
  constructor
  · cases word with
    | nil => contradiction
    | cons x word => rfl
  · intro tail rest
    clear hWord
    induction word generalizing tail with
    | nil => simp
    | cons x word ih =>
        have hRest : sep ∉ word := fun hThere =>
          hSep (List.mem_cons_of_mem x hThere)
        cases tail with
        | nil =>
            have hX : (x == sep) = false := by
              rw [beq_eq_false_iff_ne]
              rintro rfl
              exact hSep List.mem_cons_self
            rw [List.nil_append, List.isPrefixOf_cons_cons,
              hX]
            rfl
        | cons y tail =>
            have hTail := ih hRest tail
            simp only [List.cons_append,
              List.isPrefixOf_cons_cons] at hTail ⊢
            rw [hTail]

theorem occurrences_eq_zero_iff
    [BEq α] [LawfulBEq α]
    (word text : List α) :
    occurrences (fun t => word.isPrefixOf t) text = 0 ↔
      ¬ word <:+: text := by
  unfold occurrences
  simp only [List.countP_eq_zero, List.mem_tails,
    List.isPrefixOf_iff_prefix]
  constructor
  · intro hNone hInfix
    rcases List.infix_iff_prefix_suffix.mp hInfix with
      ⟨tail, hPrefix, hSuffix⟩
    exact hNone tail hSuffix hPrefix
  · intro hNone tail hSuffix hPrefix
    exact hNone
      (List.infix_iff_prefix_suffix.mpr
        ⟨tail, hPrefix, hSuffix⟩)

end Framing

------------------------------------------------------------
-- Screens
------------------------------------------------------------

namespace Framing

variable {α : Type} [DecidableEq α]

/-
  A line with each mark that the rest of the line does not
  vouch for replaced. Each mark is judged on the line as it
  was.
-/
def screen
    (mark standIn : α)
    (keeps : List α → Bool) : List α → List α
| [] => []
| x :: rest =>
    (if x = mark ∧ keeps rest = false then standIn else x) ::
      screen mark standIn keeps rest

variable {mark standIn : α} {keeps accepts : List α → Bool}

theorem mem_screen
    {x : α}
    {line : List α}
    (hMember : x ∈ screen mark standIn keeps line) :
    x = standIn ∨ x ∈ line := by
  induction line with
  | nil => contradiction
  | cons y line ih =>
      rcases List.mem_cons.mp hMember with rfl | hRest
      · split
        · exact Or.inl rfl
        · exact Or.inr List.mem_cons_self
      · rcases ih hRest with hStand | hThere
        · exact Or.inl hStand
        · exact Or.inr (List.mem_cons_of_mem y hThere)

/-
  A pattern that starts at a mark, and at no mark that a
  screen keeps, is nowhere in a screened line.
-/
theorem occurrences_screen
    (hNil : accepts [] = false)
    (hStand : standIn ≠ mark)
    (hMark : ∀ x rest, x ≠ mark → accepts (x :: rest) = false)
    (hKept :
      ∀ rest, keeps rest = true →
        accepts (mark :: screen mark standIn keeps rest) = false)
    (line : List α) :
    occurrences accepts (screen mark standIn keeps line) = 0 := by
  induction line with
  | nil => exact occurrences_nil hNil
  | cons x line ih =>
      have hHere :
          accepts (screen mark standIn keeps (x :: line)) =
            false := by
        unfold screen
        split
        · exact hMark standIn _ hStand
        · rename_i hCase
          by_cases hX : x = mark
          · subst hX
            apply hKept
            cases hKeep : keeps line with
            | true => rfl
            | false => exact absurd ⟨rfl, hKeep⟩ hCase
          · exact hMark x _ hX
      have hCons :
          occurrences accepts
              (screen mark standIn keeps (x :: line)) =
            occurrences accepts
                (screen mark standIn keeps line) +
              if accepts
                  (screen mark standIn keeps (x :: line)) then 1
              else 0 :=
        occurrences_cons _ _
      rw [hCons, ih, hHere]
      rfl

/- A word without the stand-in was there before the screen. -/
theorem isPrefixOf_screen
    {β : Type}
    [BEq β] [LawfulBEq β]
    {f : α → β}
    {word : List β}
    (hWord : f standIn ∉ word)
    {line : List α}
    (hPrefix :
      word.isPrefixOf
        ((screen mark standIn keeps line).map f) = true) :
    word.isPrefixOf (line.map f) = true := by
  induction word generalizing line with
  | nil => rfl
  | cons b word ih =>
      cases line with
      | nil => exact hPrefix
      | cons x line =>
          have hRest : f standIn ∉ word := fun hThere =>
            hWord (List.mem_cons_of_mem b hThere)
          unfold screen at hPrefix
          rw [List.map_cons, List.isPrefixOf_cons_cons,
            Bool.and_eq_true, beq_iff_eq] at hPrefix
          rw [List.map_cons, List.isPrefixOf_cons_cons,
            Bool.and_eq_true, beq_iff_eq]
          refine ⟨?_, ih hRest hPrefix.2⟩
          have hHead := hPrefix.1
          split at hHead
          · rw [hHead] at hWord
            exact absurd List.mem_cons_self hWord
          · exact hHead

theorem dropWhile_screen
    {p : α → Bool}
    (hMark : p mark = false)
    (hStand : p standIn = false)
    (line : List α) :
    (screen mark standIn keeps line).dropWhile p =
      screen mark standIn keeps (line.dropWhile p) := by
  induction line with
  | nil => rfl
  | cons x line ih =>
      have hSame :
          p (if x = mark ∧ keeps line = false then standIn
            else x) = p x := by
        split
        · rename_i hCase
          rw [hStand, hCase.1, hMark]
        · rfl
      cases hX : p x with
      | true =>
          rw [List.dropWhile_cons_of_pos hX, ← ih]
          exact List.dropWhile_cons_of_pos (hSame.trans hX)
      | false =>
          rw [List.dropWhile_cons_of_neg (by simp [hX])]
          apply List.dropWhile_cons_of_neg
          simp [hSame, hX]

end Framing
