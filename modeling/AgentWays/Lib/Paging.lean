import Mathlib.Algebra.Order.Group.Nat
import Mathlib.Data.List.Perm.Basic
import Mathlib.Tactic.Common

/-
  Pages of a list counted from its end, and walks through
  them by a cursor.

  A walk lists the last page, then goes on with the entries
  whose key is below that page's first. The key need not tell
  entries apart: the walk is whole where no page begins in the
  middle of a run of one key.

  Key definitions include:
    * `Paging.page`
    * `Paging.count`
    * `Paging.Walk`
    * `Paging.Separated`

  Main declarations:
    * `Paging.flatMap_pages`
    * `Paging.exists_walk`
    * `Paging.walk_perm_iff`
-/

------------------------------------------------------------
-- Pages
------------------------------------------------------------

namespace Paging

variable {α : Type}

/- One past the last entry of a page. -/
def endOf
    (total limit page : Nat) : Nat :=
  total - (page - 1) * limit

def startOf
    (total limit page : Nat) : Nat :=
  endOf total limit page - limit

/- Page 1 is the last `limit` entries. -/
def page
    (l : List α)
    (limit p : Nat) : List α :=
  (l.take (endOf l.length limit p)).drop
    (startOf l.length limit p)

/- The number of pages, the last one perhaps short. -/
def count
    (total limit : Nat) : Nat :=
  (total + limit - 1) / limit

theorem le_count_mul
    {limit : Nat}
    (hLimit : 0 < limit)
    (total : Nat) :
    total ≤ count total limit * limit := by
  unfold count
  have hDiv := Nat.div_add_mod (total + limit - 1) limit
  have hMod := Nat.mod_lt (total + limit - 1) hLimit
  rw [Nat.mul_comm] at hDiv
  omega

theorem drop_eq_append
    (l : List α)
    {a b : Nat}
    (hLe : a ≤ b) :
    l.drop a = (l.take b).drop a ++ l.drop b := by
  rw [List.drop_take]
  have hDrop : l.drop b = (l.drop a).drop (b - a) := by
    rw [List.drop_drop, Nat.add_sub_cancel' hLe]
  rw [hDrop, List.take_append_drop]

/- The first `m` pages, the oldest first, are the list's end. -/
theorem flatMap_pages
    (l : List α)
    (limit m : Nat) :
    (List.range m).reverse.flatMap
        (fun j => page l limit (j + 1)) =
      l.drop (l.length - m * limit) := by
  induction m with
  | zero => simp
  | succ m ih =>
      rw [List.range_succ, List.reverse_append,
        List.reverse_singleton, List.flatMap_append, ih,
        List.flatMap_singleton]
      unfold page startOf endOf
      rw [Nat.add_sub_cancel, Nat.succ_mul, Nat.sub_add_eq,
        drop_eq_append l (Nat.sub_le _ limit)]

/- All pages together are the list. -/
theorem flatMap_pages_count
    (l : List α)
    {limit : Nat}
    (hLimit : 0 < limit) :
    (List.range (count l.length limit)).reverse.flatMap
        (fun j => page l limit (j + 1)) =
      l := by
  rw [flatMap_pages,
    Nat.sub_eq_zero_of_le (le_count_mul hLimit l.length),
    List.drop_zero]

theorem page_one
    (l : List α)
    (limit : Nat) :
    page l limit 1 = l.drop (l.length - limit) := by
  unfold page startOf endOf
  rw [Nat.sub_self, Nat.zero_mul, Nat.sub_zero,
    List.take_length]

end Paging

------------------------------------------------------------
-- Walks By A Cursor
------------------------------------------------------------

namespace Paging

variable {α : Type} {key : α → Nat}
variable {l older newer : List α} {limit : Nat} {a b : α}
variable {pages : List (List α)}

/- The entries below the first key of the page just listed. -/
def rest
    (key : α → Nat)
    (limit : Nat)
    (l : List α) : List α :=
  match (page l limit 1).head? with
  | none => []
  | some a => l.filter (fun b => decide (key b < key a))

/- Page after page, each below the first key of the last. -/
inductive Walk
    (key : α → Nat)
    (limit : Nat) : List α → List (List α) → Prop
| last
    {l : List α}
    (hFew : l.length ≤ limit) :
    Walk key limit l [page l limit 1]
| next
    {l : List α}
    {pages : List (List α)}
    (hMore : limit < l.length)
    (hWalk : Walk key limit (rest key limit l) pages) :
    Walk key limit l (page l limit 1 :: pages)

/- What a walk listed, the oldest page first. -/
def listed
    (pages : List (List α)) : List α :=
  pages.reverse.flatten

/- No page begins between two entries of one key. -/
def Separated
    (key : α → Nat)
    (limit : Nat)
    (l : List α) : Prop :=
  ∀ older a b newer,
    l = older ++ a :: b :: newer →
      limit ∣ newer.length + 1 → key a ≠ key b

theorem listed_cons
    (p : List α)
    (pages : List (List α)) :
    listed (p :: pages) = listed pages ++ p := by
  unfold listed
  rw [List.reverse_cons, List.flatten_append]
  simp

/- A list that is split where its last page begins. -/
theorem exists_split
    (hLimit : 0 < limit)
    (hMore : limit < l.length) :
    ∃ older a b newer,
      l = older ++ a :: b :: newer ∧
        newer.length + 1 = limit ∧
        page l limit 1 = b :: newer := by
  have hStart : l.length - limit < l.length := by omega
  have hPred : l.length - limit - 1 < l.length := by omega
  refine
    ⟨l.take (l.length - limit - 1),
      l[l.length - limit - 1], l[l.length - limit],
      l.drop (l.length - limit + 1), ?_, ?_, ?_⟩
  · rw [List.getElem_cons_drop]
    have hNext :
        l.length - limit = l.length - limit - 1 + 1 := by
      omega
    conv_lhs =>
      rw [← List.take_append_drop (l.length - limit - 1) l,
        List.drop_eq_getElem_cons hPred, ← hNext]
  · rw [List.length_drop]
    omega
  · rw [page_one, List.getElem_cons_drop]

theorem rest_of_split
    (hPage : page l limit 1 = b :: newer) :
    rest key limit l =
      l.filter (fun c => decide (key c < key b)) := by
  unfold rest
  rw [hPage]
  rfl

/- Sorted entries below the page's first key stand before it. -/
theorem rest_eq
    (hSorted : l.Pairwise (fun x y => key x ≤ key y))
    (hSplit : l = older ++ a :: b :: newer)
    (hPage : page l limit 1 = b :: newer) :
    rest key limit l =
      (older ++ [a]).filter
        (fun c => decide (key c < key b)) := by
  rw [rest_of_split hPage]
  have hWhole : l = (older ++ [a]) ++ (b :: newer) := by
    rw [hSplit, List.append_assoc]
    rfl
  rw [hWhole, List.filter_append]
  have hNone :
      (b :: newer).filter
        (fun c => decide (key c < key b)) = [] := by
    rw [List.filter_eq_nil_iff]
    intro c hMem
    rw [hWhole, List.pairwise_append] at hSorted
    rcases List.mem_cons.mp hMem with rfl | hRest
    · simp
    · have hLe :=
        (List.pairwise_cons.mp hSorted.2.1).1 c hRest
      simpa using hLe
  rw [hNone, List.append_nil]

theorem length_rest_lt
    (hLimit : 0 < limit)
    (hMore : limit < l.length) :
    (rest key limit l).length < l.length := by
  rcases exists_split hLimit hMore with
    ⟨older, a, b, newer, hSplit, -, hPage⟩
  rw [rest_of_split hPage]
  apply List.length_filter_lt_length_iff_exists.mpr
  refine ⟨b, ?_, by simp⟩
  rw [hSplit]
  simp

/- Every walk comes to an end. -/
theorem exists_walk
    (key : α → Nat)
    (hLimit : 0 < limit)
    (l : List α) :
    ∃ pages, Walk key limit l pages := by
  induction hLength : l.length using Nat.strong_induction_on
    generalizing l with
  | h n ih =>
      by_cases hFew : l.length ≤ limit
      · exact ⟨_, .last hFew⟩
      · have hMore : limit < l.length :=
          Nat.lt_of_not_le hFew
        have hLess : (rest key limit l).length < l.length :=
          length_rest_lt hLimit hMore
        rcases ih _ (hLength ▸ hLess) (rest key limit l) rfl
          with ⟨pages, hWalk⟩
        exact ⟨_, .next hMore hWalk⟩

/- A walk lists no more entries than there are. -/
theorem length_listed_le
    (hLimit : 0 < limit)
    (hSorted : l.Pairwise (fun x y => key x ≤ key y))
    (hWalk : Walk key limit l pages) :
    (listed pages).length ≤ l.length := by
  induction hWalk with
  | last hFew =>
      rename_i l
      simp [listed, page_one]
  | next hMore hWalk ih =>
      rename_i l pages
      rcases exists_split hLimit hMore with
        ⟨older, a, b, newer, hSplit, -, hPage⟩
      have hRest := rest_eq hSorted hSplit hPage
      have hLess :
          (rest key limit l).length ≤
            (older ++ [a]).length := by
        rw [hRest]
        exact List.length_filter_le _ _
      have hBelow :=
        ih (by
          rw [rest_of_split hPage]
          exact hSorted.filter _)
      rw [listed_cons, hPage, List.length_append]
      rw [hSplit]
      simp only [List.length_append, List.length_cons,
        List.length_nil] at hLess ⊢
      omega

end Paging

------------------------------------------------------------
-- Whole Walks
------------------------------------------------------------

namespace Paging

variable {α : Type} {key : α → Nat}
variable {l older newer : List α} {limit : Nat} {a b : α}
variable {pages : List (List α)}

theorem separated_of_few
    (hFew : l.length ≤ limit) :
    Separated key limit l := by
  intro older a b newer hSplit hDvd
  have hLe := Nat.le_of_dvd (Nat.succ_pos _) hDvd
  rw [hSplit] at hFew
  simp only [List.length_append, List.length_cons] at hFew
  omega

/- The pages before the last one begin where they did. -/
theorem separated_append_iff
    (hLength : newer.length + 1 = limit) :
    Separated key limit (older ++ a :: b :: newer) ↔
      key a ≠ key b ∧ Separated key limit (older ++ [a]) := by
  constructor
  · intro hAll
    refine
      ⟨hAll older a b newer rfl
          ⟨1, by rw [hLength, Nat.mul_one]⟩, ?_⟩
    intro o x y n hSplit hDvd
    apply hAll o x y (n ++ b :: newer)
    · have hWhole :
          older ++ a :: b :: newer =
            (older ++ [a]) ++ b :: newer := by
        rw [List.append_assoc]
        rfl
      rw [hWhole, hSplit, List.append_assoc]
      rfl
    · rw [List.length_append, List.length_cons, hLength,
        Nat.add_right_comm]
      exact Nat.dvd_add hDvd (Nat.dvd_refl limit)
  · rintro ⟨hKey, hBefore⟩ o x y n hSplit hDvd
    have hLe := Nat.le_of_dvd (Nat.succ_pos _) hDvd
    have hBoth :
        (older ++ [a]) ++ (b :: newer) =
          (o ++ [x]) ++ (y :: n) := by
      simpa using hSplit
    rcases List.append_eq_append_iff.mp hBoth with
      ⟨mid, hLeft, hRight⟩ | ⟨mid, hLeft, hRight⟩
    · -- the page begins here or later: it is the last page
      have hCount := congrArg List.length hRight
      simp only [List.length_append, List.length_cons]
        at hCount
      have hNil : mid = [] := by
        apply List.eq_nil_of_length_eq_zero
        omega
      subst hNil
      rw [List.append_nil] at hLeft
      have hX := (List.append_inj' hLeft rfl).2
      cases hX
      cases hRight
      exact hKey
    · cases mid with
      | nil =>
          rw [List.append_nil] at hLeft
          have hX := (List.append_inj' hLeft rfl).2
          cases hX
          cases hRight
          exact hKey
      | cons y' mid =>
          rw [List.cons_append, List.cons.injEq] at hRight
          rcases hRight with ⟨rfl, rfl⟩
          apply hBefore o x y mid
          · rw [hLeft, List.append_assoc]
            rfl
          · rw [List.length_append, List.length_cons,
              hLength, Nat.add_right_comm] at hDvd
            exact
              (Nat.dvd_add_left (Nat.dvd_refl limit)).mp hDvd

/-
  A walk lists every entry once just where no page begins
  between two entries of one key.
-/
theorem walk_perm_iff
    (hLimit : 0 < limit)
    (hSorted : l.Pairwise (fun x y => key x ≤ key y))
    (hWalk : Walk key limit l pages) :
    (listed pages).Perm l ↔ Separated key limit l := by
  induction hWalk with
  | last hFew =>
      rename_i l
      have hAll : listed [page l limit 1] = l := by
        simp [listed, page_one, Nat.sub_eq_zero_of_le hFew]
      rw [hAll]
      exact
        ⟨fun _ => separated_of_few hFew,
          fun _ => List.Perm.refl _⟩
  | next hMore hWalk ih =>
      rename_i l pages
      rcases exists_split hLimit hMore with
        ⟨older, a, b, newer, hSplit, hLength, hPage⟩
      have hRest := rest_eq hSorted hSplit hPage
      have hSortedRest :
          (rest key limit l).Pairwise
            (fun x y => key x ≤ key y) := by
        rw [rest_of_split hPage]
        exact hSorted.filter _
      have hIh := ih hSortedRest
      have hWhole : l = (older ++ [a]) ++ (b :: newer) := by
        rw [hSplit, List.append_assoc]
        rfl
      have hLe : key a ≤ key b := by
        rw [hWhole, List.pairwise_append] at hSorted
        exact
          hSorted.2.2 a (by simp) b List.mem_cons_self
      rw [listed_cons, hPage]
      rcases Nat.lt_or_eq_of_le hLe with hLess | hSame
      · -- the cursor stands for the page's beginning
        have hAll : rest key limit l = older ++ [a] := by
          rw [hRest, List.filter_eq_self]
          intro c hMem
          rw [hWhole, List.pairwise_append,
            List.pairwise_append] at hSorted
          rw [decide_eq_true_eq]
          rcases List.mem_append.mp hMem with hOld | hA
          · exact
              Nat.lt_of_le_of_lt
                (hSorted.1.2.2 c hOld a (by simp)) hLess
          · rw [List.mem_singleton.mp hA]
            exact hLess
        rw [hAll] at hIh
        rw [hWhole, List.perm_append_right_iff, hIh,
          ← hWhole, hSplit, separated_append_iff hLength]
        exact
          ⟨fun hSep => ⟨Nat.ne_of_lt hLess, hSep⟩,
            fun hBoth => hBoth.2⟩
      · -- the entry before the page is never listed
        have hFewer :
            (rest key limit l).length <
              (older ++ [a]).length := by
          rw [hRest]
          apply List.length_filter_lt_length_iff_exists.mpr
          exact ⟨a, by simp, by simp [hSame]⟩
        have hListed :=
          length_listed_le hLimit hSortedRest hWalk
        constructor
        · intro hPerm
          have hCount := hPerm.length_eq
          rw [hWhole, List.length_append,
            List.length_append] at hCount
          omega
        · intro hSep
          rw [hSplit, separated_append_iff hLength] at hSep
          exact absurd hSame hSep.1

end Paging
