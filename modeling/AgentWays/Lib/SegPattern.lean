import Mathlib.Data.List.Basic
import Mathlib.Tactic.Common

/-
  Patterns over words of segments: a literal takes the one
  segment it is, a single wildcard takes any one, and a long
  wildcard takes any run of one or more.

  Two patterns meet when some word is covered by both. The
  check walks the two side by side, a segment at a step, and
  lets a long wildcard stay for the next segment.

  Key definitions include:
    * `SegPattern.Piece`
    * `SegPattern.covers`
    * `SegPattern.meets`

  Main declarations:
    * `SegPattern.covers_cons_iff`
    * `SegPattern.exists_word_of_meets`
    * `SegPattern.meets_of_word`
    * `SegPattern.covers_literal_append_many`
-/

------------------------------------------------------------
-- Pieces
------------------------------------------------------------

namespace SegPattern

inductive Piece (α : Type)
| lit (a : α)
| one
| many
deriving DecidableEq, Repr

variable {α : Type} [DecidableEq α]

/- Whether a piece takes a segment. -/
def Piece.takes
    (s : α) : Piece α → Bool
| .lit a => s == a
| .one => true
| .many => true

def Piece.wild : Piece α → Bool
| .lit _ => false
| .one => true
| .many => true

def Piece.isMany : Piece α → Bool
| .many => true
| _ => false

/- Whether some segment is taken by both. -/
def Piece.agree
    (x y : Piece α) : Bool :=
  x == y || x.wild || y.wild

theorem Piece.agree_of_takes
    {x y : Piece α}
    {s : α}
    (hX : x.takes s = true)
    (hY : y.takes s = true) :
    x.agree y = true := by
  cases x with
  | one => simp [agree, wild]
  | many => simp [agree, wild]
  | lit a =>
      cases y with
      | one => simp [agree, wild]
      | many => simp [agree, wild]
      | lit b =>
          simp only [takes, beq_iff_eq] at hX hY
          simp [agree, ← hX, ← hY]

/- A segment both take: a literal's own, or any at all. -/
theorem Piece.exists_takes
    [Inhabited α]
    {x y : Piece α}
    (hAgree : x.agree y = true) :
    ∃ s, x.takes s = true ∧ y.takes s = true ∧
      (s = default ∨ x = .lit s ∨ y = .lit s) := by
  cases x with
  | lit a =>
      refine ⟨a, by simp [takes], ?_, .inr (.inl rfl)⟩
      cases y with
      | lit b =>
          simp only [agree, wild, Bool.or_false, beq_iff_eq,
            Piece.lit.injEq] at hAgree
          simp [takes, hAgree]
      | one => rfl
      | many => rfl
  | one =>
      cases y with
      | lit b =>
          exact ⟨b, rfl, by simp [takes], .inr (.inr rfl)⟩
      | one => exact ⟨default, rfl, rfl, .inl rfl⟩
      | many => exact ⟨default, rfl, rfl, .inl rfl⟩
  | many =>
      cases y with
      | lit b =>
          exact ⟨b, rfl, by simp [takes], .inr (.inr rfl)⟩
      | one => exact ⟨default, rfl, rfl, .inl rfl⟩
      | many => exact ⟨default, rfl, rfl, .inl rfl⟩

------------------------------------------------------------
-- Covered Words
------------------------------------------------------------

def covers : List (Piece α) → List α → Bool
| [], w => w.isEmpty
| .many :: rest, w =>
    (List.range w.length).any
      fun n => covers rest (w.drop (n + 1))
| .one :: rest, w =>
    !w.isEmpty && covers rest (w.drop 1)
| .lit a :: rest, w =>
    decide (w.head? = some a) && covers rest (w.drop 1)

@[simp] theorem covers_nil
    (w : List α) :
    covers [] w = w.isEmpty := rfl

/- Every piece takes a segment at least. -/
@[simp] theorem covers_cons_nil
    (x : Piece α)
    (rest : List (Piece α)) :
    covers (x :: rest) [] = false := by
  cases x with
  | lit a => rfl
  | one => rfl
  | many => rfl

theorem covers_many_cons
    (rest : List (Piece α))
    (s : α)
    (w : List α) :
    covers (.many :: rest) (s :: w) =
      (covers rest w || covers (.many :: rest) w) := by
  have hRuns :
      ∀ v : List α,
        covers (.many :: rest) v =
          (List.range v.length).any
            fun n => covers rest (v.drop (n + 1)) :=
    fun _ => rfl
  rw [hRuns, hRuns, List.length_cons, List.range_succ_eq_map,
    List.any_cons, List.any_map]
  rfl

/-
  A word is covered from its head: the first piece takes the
  first segment, and then passes on or, if it is long, stays.
-/
theorem covers_cons_iff
    {x : Piece α}
    {rest : List (Piece α)}
    {w : List α} :
    covers (x :: rest) w = true ↔
      ∃ s t, w = s :: t ∧ x.takes s = true ∧
        (covers rest t = true ∨
          (x.isMany = true ∧ covers (x :: rest) t = true)) := by
  cases w with
  | nil => simp
  | cons s t =>
      have hHead :
          (∃ a b, s :: t = a :: b ∧ x.takes a = true ∧
            (covers rest b = true ∨
              (x.isMany = true ∧
                covers (x :: rest) b = true))) ↔
            x.takes s = true ∧
              (covers rest t = true ∨
                (x.isMany = true ∧
                  covers (x :: rest) t = true)) := by
        constructor
        · rintro ⟨a, b, hEq, hRest⟩
          cases hEq
          exact hRest
        · exact fun hRest => ⟨s, t, rfl, hRest⟩
      rw [hHead]
      cases x with
      | lit a =>
          simp [covers, Piece.takes, Piece.isMany]
      | one => simp [covers, Piece.takes, Piece.isMany]
      | many =>
          rw [covers_many_cons, Bool.or_eq_true]
          simp [Piece.takes, Piece.isMany]

------------------------------------------------------------
-- Patterns That Meet
------------------------------------------------------------

def meets : List (Piece α) → List (Piece α) → Bool
| [], [] => true
| [], _ :: _ => false
| _ :: _, [] => false
| x :: a, y :: b =>
    x.agree y &&
      (meets a b || (x.isMany && meets (x :: a) b) ||
        (y.isMany && meets a (y :: b)))
termination_by a b => a.length + b.length

/- A segment the patterns spell, or the plain one. -/
def Spelled
    [Inhabited α]
    (a b : List (Piece α))
    (s : α) : Prop :=
  s = default ∨ .lit s ∈ a ∨ .lit s ∈ b

/-
  Patterns that meet cover a word of segments they spell,
  one for each step of the walk.
-/
theorem exists_word_of_meets
    [Inhabited α]
    {a b : List (Piece α)}
    (hMeets : meets a b = true) :
    ∃ w, covers a w = true ∧ covers b w = true ∧
      ∀ s ∈ w, Spelled a b s := by
  induction a, b using meets.induct with
  | case1 => exact ⟨[], rfl, rfl, by simp⟩
  | case2 y b => simp [meets] at hMeets
  | case3 x a => simp [meets] at hMeets
  | case4 x a y b ihBoth ihLeft ihRight =>
      rw [meets, Bool.and_eq_true, Bool.or_eq_true,
        Bool.or_eq_true, Bool.and_eq_true,
        Bool.and_eq_true] at hMeets
      obtain ⟨hAgree, hStep⟩ := hMeets
      obtain ⟨s, hX, hY, hFrom⟩ := Piece.exists_takes hAgree
      have hHead : Spelled (x :: a) (y :: b) s := by
        rcases hFrom with hS | hS | hS
        · exact .inl hS
        · exact .inr (.inl (by simp [hS]))
        · exact .inr (.inr (by simp [hS]))
      rcases hStep with (hBoth | ⟨hMany, hLeft⟩) |
        ⟨hMany, hRight⟩
      · obtain ⟨w, hA, hB, hW⟩ := ihBoth hBoth
        refine ⟨s :: w,
          covers_cons_iff.mpr ⟨s, w, rfl, hX, .inl hA⟩,
          covers_cons_iff.mpr ⟨s, w, rfl, hY, .inl hB⟩,
          List.forall_mem_cons.mpr ⟨hHead, fun t hT => ?_⟩⟩
        exact (hW t hT).imp_right (Or.imp
          (List.mem_cons_of_mem _) (List.mem_cons_of_mem _))
      · obtain ⟨w, hA, hB, hW⟩ := ihLeft hLeft
        refine ⟨s :: w,
          covers_cons_iff.mpr
            ⟨s, w, rfl, hX, .inr ⟨hMany, hA⟩⟩,
          covers_cons_iff.mpr ⟨s, w, rfl, hY, .inl hB⟩,
          List.forall_mem_cons.mpr ⟨hHead, fun t hT => ?_⟩⟩
        exact (hW t hT).imp_right (Or.imp_right
          (List.mem_cons_of_mem _))
      · obtain ⟨w, hA, hB, hW⟩ := ihRight hRight
        refine ⟨s :: w,
          covers_cons_iff.mpr ⟨s, w, rfl, hX, .inl hA⟩,
          covers_cons_iff.mpr
            ⟨s, w, rfl, hY, .inr ⟨hMany, hB⟩⟩,
          List.forall_mem_cons.mpr ⟨hHead, fun t hT => ?_⟩⟩
        exact (hW t hT).imp_right (Or.imp_left
          (List.mem_cons_of_mem _))

/-
  A word both cover is walked segment by segment. A step in
  which both long wildcards stay is left out: the rest of
  the word is covered by the patterns as they stand.
-/
theorem meets_of_word
    {w : List α}
    {a b : List (Piece α)}
    (hA : covers a w = true)
    (hB : covers b w = true) :
    meets a b = true := by
  induction w generalizing a b with
  | nil =>
      cases a with
      | nil =>
          cases b with
          | nil => simp [meets]
          | cons y b => simp at hB
      | cons x a => simp at hA
  | cons s w ih =>
      cases a with
      | nil => simp at hA
      | cons x a =>
          cases b with
          | nil => simp at hB
          | cons y b =>
              obtain ⟨_, _, hEqA, hX, hStepA⟩ :=
                covers_cons_iff.mp hA
              cases hEqA
              obtain ⟨_, _, hEqB, hY, hStepB⟩ :=
                covers_cons_iff.mp hB
              cases hEqB
              have hAgree := Piece.agree_of_takes hX hY
              rcases hStepA with hPassA | ⟨hManyA, hStayA⟩
              · rcases hStepB with hPassB | ⟨hManyB, hStayB⟩
                · rw [meets]
                  simp [hAgree, ih hPassA hPassB]
                · rw [meets]
                  simp [hAgree, hManyB, ih hPassA hStayB]
              · rcases hStepB with hPassB | ⟨hManyB, hStayB⟩
                · rw [meets]
                  simp [hAgree, hManyA, ih hStayA hPassB]
                · exact ih hStayA hStayB

------------------------------------------------------------
-- Words Under A Word
------------------------------------------------------------

/- The literal pattern of a word covers the word alone. -/
theorem covers_literal_append
    (word : List α)
    (rest : List (Piece α))
    (w : List α) :
    covers (word.map Piece.lit ++ rest) w = true ↔
      ∃ t, w = word ++ t ∧ covers rest t = true := by
  induction word generalizing w with
  | nil =>
      exact ⟨fun h => ⟨w, rfl, h⟩,
        fun ⟨t, hEq, h⟩ => by
          rw [hEq]
          exact h⟩
  | cons a word ih =>
      rw [List.map_cons, List.cons_append, covers_cons_iff]
      constructor
      · rintro ⟨s, u, rfl, hTakes, hStep⟩
        simp only [Piece.takes, beq_iff_eq] at hTakes
        rcases hStep with hPass | ⟨hMany, -⟩
        · obtain ⟨t, rfl, hRest⟩ := (ih u).mp hPass
          exact ⟨t, by rw [hTakes]; rfl, hRest⟩
        · cases hMany
      · rintro ⟨t, rfl, hRest⟩
        exact ⟨a, word ++ t, rfl, by simp [Piece.takes],
          .inl ((ih _).mpr ⟨t, rfl, hRest⟩)⟩

theorem covers_literal
    (word w : List α) :
    covers (word.map Piece.lit) w = true ↔ w = word := by
  have hAppend := covers_literal_append word [] w
  rw [List.append_nil] at hAppend
  rw [hAppend]
  simp

theorem covers_many
    (w : List α) :
    covers [.many] w = true ↔ w ≠ [] := by
  induction w with
  | nil => simp
  | cons s w ih =>
      rw [covers_many_cons, Bool.or_eq_true, ih]
      cases w with
      | nil => simp
      | cons t w => simp

/- A long wildcard after a word: what lies under the word. -/
theorem covers_literal_append_many
    (word w : List α) :
    covers (word.map Piece.lit ++ [.many]) w = true ↔
      ∃ t, t ≠ [] ∧ w = word ++ t := by
  rw [covers_literal_append]
  constructor
  · rintro ⟨t, hEq, hMany⟩
    exact ⟨t, (covers_many t).mp hMany, hEq⟩
  · rintro ⟨t, hNe, hEq⟩
    exact ⟨t, hEq, (covers_many t).mpr hNe⟩

/- A single wildcard after a word: what lies right under it. -/
theorem covers_literal_append_one
    (word w : List α) :
    covers (word.map Piece.lit ++ [.one]) w = true ↔
      ∃ s, w = word ++ [s] := by
  rw [covers_literal_append]
  constructor
  · rintro ⟨t, hEq, hOne⟩
    obtain ⟨s, u, rfl, -, hStep⟩ := covers_cons_iff.mp hOne
    rcases hStep with hPass | ⟨hMany, -⟩
    · rw [covers_nil, List.isEmpty_iff] at hPass
      subst hPass
      exact ⟨s, hEq⟩
    · cases hMany
  · rintro ⟨s, hEq⟩
    exact ⟨[s], hEq, by simp [covers]⟩

end SegPattern
