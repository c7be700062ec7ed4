import Mathlib.Data.List.DropRight

/-
  The words of a text: what is between the runs of a class
  of breaks.

  Key definitions include:
    * `Words.words`

  Main declarations:
    * `Words.words_append`
    * `Words.words_trim`
    * `Words.words_intercalate`
-/

------------------------------------------------------------
-- Words
------------------------------------------------------------

namespace Words

variable {α : Type} {breaks : α → Bool}

/- The parts of a text between runs of breaks. -/
def words
    (breaks : α → Bool)
    (text : List α) : List (List α) :=
  (text.splitOnP breaks).filter (fun w => !w.isEmpty)

theorem not_of_mem_splitOnP
    {text part : List α}
    (hPart : part ∈ text.splitOnP breaks) :
    ∀ x ∈ part, breaks x = false := by
  induction text generalizing part with
  | nil =>
      rw [List.mem_singleton.mp hPart]
      simp
  | cons y ys ih =>
      rw [List.splitOnP_cons_eq_if_modifyHead] at hPart
      split at hPart
      · rcases List.mem_cons.mp hPart with rfl | hRest
        · simp
        · exact ih hRest
      · rename_i hY
        cases hSplit : ys.splitOnP breaks with
        | nil =>
            exact absurd hSplit (List.splitOnP_ne_nil breaks ys)
        | cons q qs =>
            rw [hSplit] at hPart ih
            rcases List.mem_cons.mp hPart with rfl | hRest
            · intro x hMember
              rcases List.mem_cons.mp hMember with rfl | hThere
              · exact Bool.eq_false_iff.mpr hY
              · exact ih List.mem_cons_self x hThere
            · exact ih (List.mem_cons_of_mem q hRest)

/- A break ends the words before it. -/
theorem words_append
    {sep : α}
    (hSep : breaks sep = true)
    (a b : List α) :
    words breaks (a ++ sep :: b) =
      words breaks a ++ words breaks b := by
  unfold words
  rw [List.splitOnP_append_cons a b hSep, List.filter_append]

theorem words_cons
    {sep : α}
    (hSep : breaks sep = true)
    (text : List α) :
    words breaks (sep :: text) = words breaks text :=
  words_append hSep [] text

theorem words_of_bare
    {word : List α}
    (hNonempty : word ≠ [])
    (hBare : ∀ x ∈ word, breaks x = false) :
    words breaks word = [word] := by
  unfold words
  rw [List.splitOnP_eq_singleton hBare]
  simp [hNonempty]

theorem words_single
    {x : α}
    (hBare : breaks x = false) :
    words breaks [x] = [[x]] := by
  apply words_of_bare (List.cons_ne_nil x [])
  intro y hMem
  rw [List.mem_singleton.mp hMem]
  exact hBare

theorem words_breaks_append
    {blank : List α}
    (hBlank : ∀ x ∈ blank, breaks x = true)
    (text : List α) :
    words breaks (blank ++ text) = words breaks text := by
  induction blank with
  | nil => rfl
  | cons x blank ih =>
      rw [List.cons_append,
        words_cons (hBlank x List.mem_cons_self),
        ih (fun y hMember =>
          hBlank y (List.mem_cons_of_mem x hMember))]

theorem words_of_breaks
    {blank : List α}
    (hBlank : ∀ x ∈ blank, breaks x = true) :
    words breaks blank = [] := by
  have hAll := words_breaks_append hBlank []
  rw [List.append_nil] at hAll
  exact hAll

theorem words_append_breaks
    (text : List α)
    {blank : List α}
    (hBlank : ∀ x ∈ blank, breaks x = true) :
    words breaks (text ++ blank) = words breaks text := by
  cases blank with
  | nil => rw [List.append_nil]
  | cons x blank =>
      rw [words_append (hBlank x List.mem_cons_self),
        words_of_breaks (fun y hMember =>
          hBlank y (List.mem_cons_of_mem x hMember)),
        List.append_nil]

theorem words_dropWhile
    (text : List α) :
    words breaks (text.dropWhile breaks) =
      words breaks text := by
  have hSplit :=
    List.takeWhile_append_dropWhile (p := breaks) (l := text)
  have hBlank : ∀ x ∈ text.takeWhile breaks, breaks x = true :=
    fun x hMember => List.mem_takeWhile_imp hMember
  rw [← words_breaks_append hBlank (text.dropWhile breaks),
    hSplit]

theorem words_rdropWhile
    (text : List α) :
    words breaks (text.rdropWhile breaks) =
      words breaks text := by
  have hSplit :
      text.rdropWhile breaks ++ text.rtakeWhile breaks = text :=
    List.rdropWhile_append_rtakeWhile
  have hBlank :
      ∀ x ∈ text.rtakeWhile breaks, breaks x = true :=
    fun x hMember => List.mem_rtakeWhile_imp hMember
  rw [← words_append_breaks (text.rdropWhile breaks) hBlank,
    hSplit]

/- A trim leaves the words. -/
theorem words_trim
    (text : List α) :
    words breaks
        ((text.dropWhile breaks).rdropWhile breaks) =
      words breaks text := by
  rw [words_rdropWhile, words_dropWhile]

/-
  The first word of a text that starts bare, which another
  character that is no break is put in front of.
-/
theorem words_cons_bare
    {x : α}
    (hX : breaks x = false)
    (text : List α) :
    ∃ word more, word ≠ [] ∧
      words breaks (x :: text) = word :: more ∧
      ∀ y, breaks y = false →
        words breaks (y :: x :: text) = (y :: word) :: more := by
  have hSplit :=
    List.takeWhile_append_dropWhile
      (p := fun z => !breaks z) (l := x :: text)
  have hWord :
      (x :: text).takeWhile (fun z => !breaks z) ≠ [] := by
    rw [List.takeWhile_cons_of_pos (by simp [hX])]
    exact List.cons_ne_nil _ _
  have hBare :
      ∀ z ∈ (x :: text).takeWhile (fun z => !breaks z),
        breaks z = false := by
    intro z hMember
    simpa using List.mem_takeWhile_imp hMember
  generalize
    (x :: text).takeWhile (fun z => !breaks z) = word at *
  cases hDrop :
      (x :: text).dropWhile (fun z => !breaks z) with
  | nil =>
      rw [hDrop, List.append_nil] at hSplit
      refine ⟨word, [], hWord, ?_, ?_⟩
      · rw [← hSplit, words_of_bare hWord hBare]
      · intro y hY
        rw [← hSplit]
        apply words_of_bare (List.cons_ne_nil _ _)
        intro z hMember
        rcases List.mem_cons.mp hMember with rfl | hThere
        · exact hY
        · exact hBare z hThere
  | cons sep rest =>
      have hSep : breaks sep = true := by
        have hSome :
            (x :: text).dropWhile (fun z => !breaks z) ≠ [] := by
          rw [hDrop]
          exact List.cons_ne_nil _ _
        have hHead := List.head_dropWhile_not _ hSome
        simpa [hDrop] using hHead
      rw [hDrop] at hSplit
      refine ⟨word, words breaks rest, hWord, ?_, ?_⟩
      · rw [← hSplit, words_append hSep,
          words_of_bare hWord hBare]
        rfl
      · intro y hY
        have hCons : ∀ z ∈ y :: word, breaks z = false := by
          intro z hMember
          rcases List.mem_cons.mp hMember with rfl | hThere
          · exact hY
          · exact hBare z hThere
        rw [← hSplit, ← List.cons_append, words_append hSep,
          words_of_bare (List.cons_ne_nil _ _) hCons]
        rfl

/- The words of texts joined are those of each, in order. -/
theorem words_intercalate
    {sep : α}
    (hSep : breaks sep = true)
    (texts : List (List α)) :
    words breaks ([sep].intercalate texts) =
      texts.flatMap (words breaks) := by
  induction texts with
  | nil => rfl
  | cons text texts ih =>
      cases texts with
      | nil => simp [List.intercalate_singleton]
      | cons next more =>
          rw [List.intercalate_cons_cons, List.append_assoc,
            List.singleton_append, words_append hSep, ih]
          rfl

end Words
