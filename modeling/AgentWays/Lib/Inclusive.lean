import Mathlib.Data.List.Basic

/-
  A text cut after each of its separators.

  A piece ends with the separator and has no other, and what
  follows the last separator is a piece of its own, where
  there is any. A list of such pieces is the cut of what
  they make together.

  Key definitions include:
    * `Inclusive.split`
    * `Inclusive.Pieces`

  Main declarations:
    * `Inclusive.flatten_split`
    * `Inclusive.pieces_split`
    * `Inclusive.split_flatten`
    * `Inclusive.Pieces.map`
    * `Inclusive.split_of_begun`
-/

------------------------------------------------------------
-- Pieces
------------------------------------------------------------

namespace Inclusive

/- `split_inclusive` at a separator. -/
def split
    {α : Type} [DecidableEq α]
    (sep : α) : List α → List (List α)
| [] => []
| b :: rest =>
    if b = sep then [b] :: split sep rest
    else
      match split sep rest with
      | [] => [[b]]
      | piece :: pieces => (b :: piece) :: pieces

/- The pieces of a text, the last of them perhaps open. -/
inductive Pieces
    {α : Type}
    (sep : α) : List (List α) → Prop
| nil : Pieces sep []
| tail
    {rest : List α}
    (hRest : rest ≠ [])
    (hOpen : sep ∉ rest) :
    Pieces sep [rest]
| cons
    {body : List α}
    {pieces : List (List α)}
    (hBody : sep ∉ body)
    (hPieces : Pieces sep pieces) :
    Pieces sep ((body ++ [sep]) :: pieces)

variable {α : Type} {sep : α}

/- Pieces changed one by one, each still ended as it was. -/
theorem Pieces.map
    {g : List α → List α}
    {pieces : List (List α)}
    (hPieces : Pieces sep pieces)
    (hEnded :
      ∀ body, sep ∉ body →
        ∃ body', sep ∉ body' ∧
          g (body ++ [sep]) = body' ++ [sep])
    (hTail :
      ∀ rest, rest ≠ [] → sep ∉ rest →
        g rest ≠ [] ∧ sep ∉ g rest) :
    Pieces sep (pieces.map g) := by
  induction hPieces with
  | nil => exact .nil
  | @tail rest hRest hOpen =>
      exact .tail (hTail rest hRest hOpen).1
        (hTail rest hRest hOpen).2
  | @cons body pieces hBody _ ih =>
      rcases hEnded body hBody with ⟨body', hBody', hSame⟩
      rw [List.map_cons, hSame]
      exact .cons hBody' ih

/- A piece is open, or ended once. -/
theorem Pieces.of_mem
    {pieces : List (List α)}
    {piece : List α}
    (hPieces : Pieces sep pieces)
    (hMember : piece ∈ pieces) :
    (piece ≠ [] ∧ sep ∉ piece) ∨
      ∃ body, sep ∉ body ∧ piece = body ++ [sep] := by
  induction hPieces with
  | nil => cases hMember
  | tail hRest hOpen =>
      rw [List.mem_singleton.mp hMember]
      exact Or.inl ⟨hRest, hOpen⟩
  | @cons body pieces hBody _ ih =>
      rcases List.mem_cons.mp hMember with rfl | hIn
      · exact Or.inr ⟨body, hBody, rfl⟩
      · exact ih hIn

/- Ended pieces stand before any others. -/
theorem Pieces.append
    {ended pieces : List (List α)}
    (hEnded :
      ∀ piece ∈ ended,
        ∃ body, sep ∉ body ∧ piece = body ++ [sep])
    (hPieces : Pieces sep pieces) :
    Pieces sep (ended ++ pieces) := by
  induction ended with
  | nil => exact hPieces
  | cons piece ended ih =>
      rcases hEnded piece (by simp) with ⟨body, hBody, rfl⟩
      exact
        .cons hBody
          (ih (fun piece hIn =>
            hEnded piece (List.mem_cons_of_mem _ hIn)))

/- What stands before another piece is ended. -/
theorem Pieces.ended_of_append
    {front back : List (List α)}
    (hPieces : Pieces sep (front ++ back))
    (hBack : back ≠ []) :
    (∀ piece ∈ front,
        ∃ body, sep ∉ body ∧ piece = body ++ [sep]) ∧
      Pieces sep back := by
  induction front with
  | nil => exact ⟨by simp, hPieces⟩
  | cons piece front ih =>
      generalize hRest : front ++ back = rest at ih
      rw [List.cons_append, hRest] at hPieces
      cases hPieces with
      | tail hPiece hOpen =>
          simp only [List.append_eq_nil_iff] at hRest
          exact absurd hRest.2 hBack
      | cons hBody hPieces =>
          rename_i body
          rcases ih hPieces with ⟨hFront, hLast⟩
          refine ⟨?_, hLast⟩
          intro other hMember
          rcases List.mem_cons.mp hMember with rfl | hIn
          · exact ⟨body, hBody, rfl⟩
          · exact hFront other hIn

/- A text that ends with the separator has ended pieces. -/
theorem Pieces.ended_of_getLast?
    {pieces : List (List α)}
    (hPieces : Pieces sep pieces)
    (hLast : pieces.flatten.getLast? = some sep) :
    ∀ piece ∈ pieces,
      ∃ body, sep ∉ body ∧ piece = body ++ [sep] := by
  induction hPieces with
  | nil => simp at hLast
  | tail hRest hOpen =>
      rw [List.flatten_singleton] at hLast
      exact absurd (List.mem_of_getLast? hLast) hOpen
  | @cons body pieces hBody hRest ih =>
      intro piece hMember
      rcases List.mem_cons.mp hMember with rfl | hIn
      · exact ⟨body, hBody, rfl⟩
      · refine ih ?_ piece hIn
        rw [List.flatten_cons, List.getLast?_append] at hLast
        cases hEnd : pieces.flatten.getLast? with
        | none =>
            rw [List.getLast?_eq_none_iff,
              List.flatten_eq_nil_iff] at hEnd
            have hEmpty := hEnd piece hIn
            rcases Pieces.of_mem hRest hIn with
              ⟨hSome, -⟩ | ⟨body', -, hSame⟩
            · exact absurd hEmpty hSome
            · rw [hSame] at hEmpty
              simp at hEmpty
        | some last =>
            rw [hEnd] at hLast
            simpa using hLast

variable [DecidableEq α]

@[simp] theorem split_nil :
    split sep [] = [] := rfl

theorem split_cons_of_ne
    {b : α}
    (hOther : b ≠ sep)
    (rest : List α) :
    split sep (b :: rest) =
      match split sep rest with
      | [] => [[b]]
      | piece :: pieces => (b :: piece) :: pieces := by
  rw [split, if_neg hOther]

theorem flatten_split
    (xs : List α) :
    (split sep xs).flatten = xs := by
  induction xs with
  | nil => rfl
  | cons b rest ih =>
      unfold split
      split
      · simp [ih]
      · split
        · rename_i hNone
          rw [hNone] at ih
          simpa using ih
        · rename_i piece pieces hSome
          rw [hSome] at ih
          simpa using ih

theorem pieces_split
    (xs : List α) :
    Pieces sep (split sep xs) := by
  induction xs with
  | nil => exact .nil
  | cons b rest ih =>
      unfold split
      split
      · rename_i hSep
        subst hSep
        change Pieces b (([] ++ [b]) :: split b rest)
        exact .cons List.not_mem_nil ih
      · rename_i hOther
        split
        · exact
            .tail (by simp)
              (by simpa using fun hSep => hOther hSep.symm)
        · rename_i piece pieces hSome
          rw [hSome] at ih
          cases ih with
          | tail hRest hOpen =>
              refine .tail (by simp) ?_
              intro hMember
              rcases List.mem_cons.mp hMember with hSep | hIn
              · exact hOther hSep.symm
              · exact hOpen hIn
          | cons hBody hPieces =>
              rename_i body
              change Pieces sep ((b :: body ++ [sep]) :: pieces)
              refine .cons ?_ hPieces
              intro hMember
              rcases List.mem_cons.mp hMember with hSep | hIn
              · exact hOther hSep.symm
              · exact hBody hIn

/- An open text is one piece. -/
theorem split_of_not_mem
    {rest : List α}
    (hRest : rest ≠ [])
    (hOpen : sep ∉ rest) :
    split sep rest = [rest] := by
  induction rest with
  | nil => exact absurd rfl hRest
  | cons b rest ih =>
      have hHead : b ≠ sep := by
        rintro rfl
        exact hOpen (by simp)
      rw [split_cons_of_ne hHead]
      cases rest with
      | nil => rfl
      | cons c rest =>
          rw [ih (by simp) (fun hIn => hOpen (by simp [hIn]))]

theorem split_append_sep
    {body : List α}
    (hBody : sep ∉ body)
    (rest : List α) :
    split sep (body ++ [sep] ++ rest) =
      (body ++ [sep]) :: split sep rest := by
  induction body with
  | nil => simp [split]
  | cons b body ih =>
      have hHead : b ≠ sep := by
        rintro rfl
        exact hBody (by simp)
      simp only [List.cons_append]
      rw [split_cons_of_ne hHead,
        ih (fun hIn => hBody (List.mem_cons_of_mem b hIn))]

/- Pieces are what their text is cut into. -/
theorem split_flatten
    {pieces : List (List α)}
    (hPieces : Pieces sep pieces) :
    split sep pieces.flatten = pieces := by
  induction hPieces with
  | nil => rfl
  | tail hRest hOpen =>
      rw [List.flatten_singleton]
      exact split_of_not_mem hRest hOpen
  | cons hBody _ ih =>
      rw [List.flatten_cons, split_append_sep hBody, ih]

/- After an ended text, another is cut as it is alone. -/
theorem split_append_of_getLast?
    {xs : List α}
    (hLast : xs.getLast? = some sep)
    (ys : List α) :
    split sep (xs ++ ys) = split sep xs ++ split sep ys := by
  have hEnded :=
    (@pieces_split _ sep _ xs).ended_of_getLast?
      (by rw [flatten_split]; exact hLast)
  have hPieces :=
    Pieces.append hEnded (@pieces_split _ sep _ ys)
  have hText := split_flatten hPieces
  rw [List.flatten_append, flatten_split, flatten_split]
    at hText
  exact hText

/- What goes on after an open text goes on in its piece. -/
theorem split_append_open
    {begun : List α}
    (hBegun : begun ≠ [])
    (hOpen : sep ∉ begun)
    (rest : List α) :
    ∃ more pieces,
      split sep (begun ++ rest) = (begun ++ more) :: pieces := by
  induction begun with
  | nil => exact absurd rfl hBegun
  | cons b begun ih =>
      have hHead : b ≠ sep := by
        rintro rfl
        exact hOpen (by simp)
      rw [List.cons_append, split_cons_of_ne hHead]
      cases begun with
      | nil =>
          rw [List.nil_append]
          cases split sep rest with
          | nil => exact ⟨[], [], rfl⟩
          | cons piece pieces => exact ⟨piece, pieces, rfl⟩
      | cons c begun =>
          rcases ih (by simp)
            (fun hIn => hOpen (List.mem_cons_of_mem b hIn)) with
            ⟨more, pieces, hSame⟩
          rw [hSame]
          exact ⟨more, pieces, rfl⟩

/-
  A text that goes on has the pieces it had, but for an open
  one at its end, which may go on as well.
-/
theorem split_of_begun
    {xs ys : List α}
    (hPrefix : xs <+: ys) :
    ∃ pieces rest,
      split sep ys = pieces ++ rest ∧
        (split sep xs = pieces ∨
          ∃ begun piece rest',
            rest = piece :: rest' ∧ begun <+: piece ∧
              split sep xs = pieces ++ [begun]) := by
  rcases hPrefix with ⟨more, rfl⟩
  have hPieces := @pieces_split _ sep _ xs
  have hText := @flatten_split _ sep _ xs
  generalize split sep xs = cut at hPieces hText ⊢
  induction hPieces generalizing xs with
  | nil =>
      exact ⟨[], split sep (xs ++ more), rfl, Or.inl rfl⟩
  | @tail begun hBegun hOpen =>
      rw [List.flatten_singleton] at hText
      subst hText
      rcases split_append_open hBegun hOpen more with
        ⟨more', pieces, hSame⟩
      exact
        ⟨[], _, hSame,
          Or.inr
            ⟨begun, begun ++ more', pieces, rfl,
              List.prefix_append _ _, rfl⟩⟩
  | @cons body cut hBody _ ih =>
      rw [List.flatten_cons] at hText
      subst hText
      rcases ih rfl with ⟨pieces, rest, hSplit, hCut⟩
      refine ⟨(body ++ [sep]) :: pieces, rest, ?_, ?_⟩
      · rw [List.append_assoc, split_append_sep hBody, hSplit]
        rfl
      · rcases hCut with
          rfl | ⟨begun, piece, rest', hRest, hBegun, rfl⟩
        · exact Or.inl rfl
        · exact
            Or.inr ⟨begun, piece, rest', hRest, hBegun, rfl⟩

end Inclusive
