import AgentWays.Scan.Order

/-
  The admission order is the walk of the forest: a hit comes
  after its matched ancestors, a subtree stays together, and
  of two siblings the better subtree comes first.

  Key definitions include:
    * `Scan.idForest`
    * `Scan.Better`
    * `Scan.IsWalk`

  Main declarations:
    * `Scan.childrenOf_hits`
    * `Scan.orderHits_spec`
-/

------------------------------------------------------------
-- Ids
------------------------------------------------------------

namespace Scan

theorem isProperAncestor_iff
    {a b : List Char} :
    isProperAncestor a b = true ↔ ∃ rest, b = a ++ '/' :: rest := by
  unfold isProperAncestor
  simp only [Bool.and_eq_true, decide_eq_true_eq,
    List.isPrefixOf_iff_prefix]
  constructor
  · rintro ⟨⟨-, rest, rfl⟩, hSlash⟩
    rw [List.drop_left] at hSlash
    rcases List.head?_eq_some_iff.mp hSlash with ⟨tail, rfl⟩
    exact ⟨tail, rfl⟩
  · rintro ⟨rest, rfl⟩
    refine ⟨⟨?_, List.prefix_append _ _⟩, ?_⟩
    · rw [Utf8.size_append, Utf8.size_cons]
      have hPos := Char.utf8Size_pos '/'
      omega
    · rw [List.drop_left]
      rfl

theorem size_lt_of_isProperAncestor
    {a b : List Char}
    (hAbove : isProperAncestor a b = true) :
    Utf8.size a < Utf8.size b := by
  unfold isProperAncestor at hAbove
  simp only [Bool.and_eq_true, decide_eq_true_eq] at hAbove
  exact hAbove.1.1

theorem isProperAncestor_trans
    {a b c : List Char}
    (hAbove : isProperAncestor a b = true)
    (hAbove' : isProperAncestor b c = true) :
    isProperAncestor a c = true := by
  rcases isProperAncestor_iff.mp hAbove with ⟨rest, rfl⟩
  rcases isProperAncestor_iff.mp hAbove' with ⟨more, rfl⟩
  exact isProperAncestor_iff.mpr ⟨_, by rw [List.append_assoc]; rfl⟩

/- Of two ancestors, the shorter is one of the longer. -/
theorem isProperAncestor_chain
    {a b c : List Char}
    (hAbove : isProperAncestor a c = true)
    (hAbove' : isProperAncestor b c = true) :
    a = b ∨ isProperAncestor a b = true ∨
      isProperAncestor b a = true := by
  rcases isProperAncestor_iff.mp hAbove with ⟨rest, rfl⟩
  rcases isProperAncestor_iff.mp hAbove' with ⟨more, hSame⟩
  rcases List.append_eq_append_iff.mp hSame with
    ⟨mid, rfl, hRest⟩ | ⟨mid, rfl, hMore⟩
  · cases mid with
    | nil => exact Or.inl (List.append_nil a).symm
    | cons d mid =>
        cases hRest
        exact
          Or.inr (Or.inl (isProperAncestor_iff.mpr ⟨mid, rfl⟩))
  · cases mid with
    | nil => exact Or.inl (List.append_nil b)
    | cons d mid =>
        cases hMore
        exact
          Or.inr (Or.inr (isProperAncestor_iff.mpr ⟨mid, rfl⟩))

/- Nodes with distinct ids, as the forest of the ids. -/
def idForest
    {α : Type}
    (nodes : List α)
    (idOf : α → List Char)
    (hDistinct :
      ∀ {a b}, a ∈ nodes → b ∈ nodes → idOf a = idOf b → a = b) :
    Forest α where
  nodes := nodes
  above a b := isProperAncestor (idOf a) (idOf b) = true
  depth a := Utf8.size (idOf a)
  depth_lt := size_lt_of_isProperAncestor
  trans := isProperAncestor_trans
  chain := by
    intro a b c hA hB hAbove hAbove'
    rcases isProperAncestor_chain hAbove hAbove' with
      hSame | hOther
    · exact Or.inl (hDistinct hA hB hSame)
    · exact Or.inr hOther

end Scan

------------------------------------------------------------
-- Greatest And Sorted
------------------------------------------------------------

namespace Scan

/- The element picked is the greatest by its key. -/
theorem maxBy_spec
    {α κ : Type}
    [LinearOrder κ]
    {cmp : α → α → Ordering}
    (key : α → κ)
    (hCmp : ∀ a b, cmp a b = .gt ↔ key b < key a)
    {xs : List α}
    {m : α}
    (hMax : maxBy cmp xs = some m) :
    m ∈ xs ∧ ∀ x ∈ xs, key x ≤ key m := by
  have hFold (xs : List α) (a : α) :
      xs.foldl (fun x y => if cmp x y = .gt then x else y) a ∈
          a :: xs ∧
        ∀ x ∈ a :: xs,
          key x ≤
            key
              (xs.foldl
                (fun x y => if cmp x y = .gt then x else y) a) := by
    induction xs generalizing a with
    | nil => simp
    | cons b rest ih =>
        rw [List.foldl_cons]
        by_cases hGt : cmp a b = .gt
        · have hLt := (hCmp a b).mp hGt
          rw [if_pos hGt]
          have hRest := ih a
          refine ⟨?_, ?_⟩
          · rcases List.mem_cons.mp hRest.1 with hSame | hMem
            · rw [hSame]
              exact List.mem_cons_self
            · exact
                List.mem_cons_of_mem a (List.mem_cons_of_mem b hMem)
          · intro x hMem
            rcases List.mem_cons.mp hMem with rfl | hMem
            · exact hRest.2 x List.mem_cons_self
            · rcases List.mem_cons.mp hMem with rfl | hMem
              · exact
                  hLt.le.trans (hRest.2 a List.mem_cons_self)
              · exact hRest.2 x (List.mem_cons_of_mem a hMem)
        · have hLe : key a ≤ key b :=
            not_lt.mp (fun hLt => hGt ((hCmp a b).mpr hLt))
          rw [if_neg hGt]
          have hRest := ih b
          refine ⟨List.mem_cons_of_mem a hRest.1, ?_⟩
          intro x hMem
          rcases List.mem_cons.mp hMem with rfl | hMem
          · exact hLe.trans (hRest.2 b List.mem_cons_self)
          · exact hRest.2 x hMem
  cases xs with
  | nil => cases hMax
  | cons a rest =>
      cases hMax
      exact hFold rest a

theorem maxBy_eq_none_iff
    {α : Type}
    {cmp : α → α → Ordering}
    {xs : List α} :
    maxBy cmp xs = none ↔ xs = [] := by
  cases xs with
  | nil => exact iff_of_true rfl rfl
  | cons a rest => simp [maxBy]

theorem perm_sortBy
    {α : Type}
    (cmp : α → α → Ordering)
    (xs : List α) :
    (sortBy cmp xs).Perm xs :=
  List.mergeSort_perm xs _

theorem mem_sortBy
    {α : Type}
    {cmp : α → α → Ordering}
    {xs : List α}
    {a : α} :
    a ∈ sortBy cmp xs ↔ a ∈ xs :=
  (perm_sortBy cmp xs).mem_iff

/- Elements with keys of their own come out in their order. -/
theorem sortBy_pairwise
    {α κ : Type}
    [LinearOrder κ]
    {cmp : α → α → Ordering}
    (key : α → κ)
    (hCmp : ∀ a b, cmp a b = .gt ↔ key b < key a)
    {xs : List α}
    (hKeys : (xs.map key).Nodup) :
    (sortBy cmp xs).Pairwise (fun a b => key a < key b) := by
  have hLe (a b : α) :
      (cmp a b != .gt) = true ↔ key a ≤ key b := by
    rw [bne_iff_ne, ne_eq, hCmp, not_lt]
  have hSorted :=
    @List.pairwise_mergeSort _ (fun a b => cmp a b != .gt)
      (by
        intro a b c hAB hBC
        rw [hLe] at hAB hBC ⊢
        exact hAB.trans hBC)
      (by
        intro a b
        rw [Bool.or_eq_true, hLe, hLe]
        exact le_total _ _)
      xs
  have hDistinct : ((sortBy cmp xs).map key).Nodup :=
    ((perm_sortBy cmp xs).map key).nodup_iff.mpr hKeys
  apply (hSorted.and (List.pairwise_map.mp hDistinct)).imp
  rintro a b ⟨hBefore, hNe⟩
  exact lt_of_le_of_ne ((hLe a b).mp hBefore) hNe

end Scan

------------------------------------------------------------
-- Keys
------------------------------------------------------------

namespace Scan

variable {S T : Type} [LinearOrder S]

theorem rankCmp_eq_gt_iff
    {a b : Nat × S} :
    rankCmp a b = .gt ↔ toLex b < toLex a := by
  unfold rankCmp
  rw [Ordering.then_eq_gt, compare_gt_iff_gt, compare_eq_iff_eq,
    compare_gt_iff_gt, Prod.Lex.toLex_lt_toLex]
  constructor
  · rintro (hTier | ⟨hTier, hValue⟩)
    · exact Or.inl hTier
    · exact Or.inr ⟨hTier.symm, hValue⟩
  · rintro (hTier | ⟨hTier, hValue⟩)
    · exact Or.inl hTier
    · exact Or.inr ⟨hTier.symm, hValue⟩

theorem rankCmp_eq_eq_iff
    {a b : Nat × S} :
    rankCmp a b = .eq ↔ a = b := by
  unfold rankCmp
  rw [Ordering.then_eq_eq, compare_eq_iff_eq, compare_eq_iff_eq,
    Prod.ext_iff]

theorem compareIds_eq_gt_iff
    {a b : List Char} :
    compareIds a b = .gt ↔ b < a := by
  unfold compareIds
  split
  · rename_i hLt
    exact iff_of_false (by simp) (not_lt_of_gt hLt)
  · split
    · rename_i hGt
      exact iff_of_true rfl hGt
    · rename_i hNot
      exact iff_of_false (by simp) hNot

variable (hits : List (Hit S T)) (sc : Scores S)

/- What the sorts order hits by: the best rank, then the id. -/
def orderKey
    (i : Fin hits.length) : (Nat ×ₗ S)ᵒᵈ ×ₗ List Char :=
  toLex (OrderDual.toDual (toLex (best hits sc i)), idAt hits i)

variable {hits sc}

theorem orderKey_lt_iff
    {a b : Fin hits.length} :
    orderKey hits sc a < orderKey hits sc b ↔
      toLex (best hits sc b) < toLex (best hits sc a) ∨
        best hits sc a = best hits sc b ∧
          idAt hits a < idAt hits b := by
  unfold orderKey
  rw [Prod.Lex.toLex_lt_toLex]
  dsimp only
  rw [OrderDual.toDual_lt_toDual, OrderDual.toDual_inj,
    toLex_inj]

theorem byRankThenId_eq_gt_iff
    (a b : Fin hits.length) :
    byRankThenId hits sc a b = .gt ↔
      orderKey hits sc b < orderKey hits sc a := by
  unfold byRankThenId
  rw [Ordering.then_eq_gt, rankCmp_eq_gt_iff, rankCmp_eq_eq_iff,
    compareIds_eq_gt_iff, orderKey_lt_iff]

end Scan

------------------------------------------------------------
-- The Forest Of The Hits
------------------------------------------------------------

namespace Scan

variable {S T : Type} {hits : List (Hit S T)}

theorem eq_of_id_eq
    (hDistinct : (hits.map Hit.id).Nodup)
    {a b : Hit S T}
    (hA : a ∈ hits)
    (hB : b ∈ hits)
    (hSame : a.id = b.id) :
    a = b :=
  List.inj_on_of_nodup_map hDistinct hA hB hSame

theorem eq_of_idAt_eq
    (hDistinct : (hits.map Hit.id).Nodup)
    {i j : Fin hits.length}
    (hSame : idAt hits i = idAt hits j) :
    i = j := by
  have hHits : hits.Nodup := hDistinct.of_map
  have hGet :=
    eq_of_id_eq hDistinct (List.get_mem hits i)
      (List.get_mem hits j) hSame
  exact List.nodup_iff_injective_get.mp hHits hGet

/- The forest of the hits, by their indices and as hits. -/
def indexForest
    (hDistinct : (hits.map Hit.id).Nodup) :
    Forest (Fin hits.length) :=
  idForest (List.finRange hits.length) (idAt hits)
    (fun _ _ hSame => eq_of_idAt_eq hDistinct hSame)

def hitForest
    (hDistinct : (hits.map Hit.id).Nodup) : Forest (Hit S T) :=
  idForest hits Hit.id
    (fun hA hB hSame => eq_of_id_eq hDistinct hA hB hSame)

theorem carries_get
    (hDistinct : (hits.map Hit.id).Nodup) :
    Forest.Carries (indexForest hDistinct) (hitForest hDistinct)
      hits.get where
  above := Iff.rfl
  injective hSame := List.nodup_iff_injective_get.mp hDistinct.of_map hSame
  mem _ := List.get_mem hits _
  onto hMem := by
    rcases List.mem_iff_get.mp hMem with ⟨i, hGet⟩
    exact ⟨i, List.mem_finRange i, hGet⟩

/- The parent is the nearest of the nodes above. -/
theorem parent_eq_some_iff
    (hDistinct : (hits.map Hit.id).Nodup)
    {i j : Fin hits.length} :
    parent hits j = some i ↔
      (indexForest hDistinct).above i j ∧
        ∀ k, (indexForest hDistinct).above k j →
          (indexForest hDistinct).Under k i := by
  let F := indexForest hDistinct
  have hPicked {m : Fin hits.length}
      (hMax : parent hits j = some m) :
      F.above m j ∧
        ∀ k, F.above k j →
          Utf8.size (idAt hits k) ≤ Utf8.size (idAt hits m) := by
    have hSpec :=
      maxBy_spec (fun k => Utf8.size (idAt hits k))
        (fun _ _ => compare_gt_iff_gt) hMax
    simp only [List.mem_filter, List.mem_finRange,
      true_and] at hSpec
    exact hSpec
  have hNear {m : Fin hits.length}
      (hMax : parent hits j = some m)
      (k : Fin hits.length)
      (hAbove : F.above k j) :
      F.Under k m := by
    have hSpec := hPicked hMax
    rcases F.chain (List.mem_finRange k) (List.mem_finRange m)
        hAbove hSpec.1 with hSame | hOver | hInside
    · exact Or.inl hSame
    · exact Or.inr hOver
    · have hLess := F.depth_lt hInside
      exact absurd hLess (Nat.not_lt.mpr (hSpec.2 k hAbove))
  constructor
  · intro hMax
    exact ⟨(hPicked hMax).1, hNear hMax⟩
  · rintro ⟨hAbove, hNearest⟩
    cases hMax : parent hits j with
    | none =>
        unfold parent at hMax
        rw [maxBy_eq_none_iff, List.filter_eq_nil_iff] at hMax
        exact absurd hAbove (hMax i (List.mem_finRange i))
    | some m =>
        rcases hNear hMax i hAbove with rfl | hOver
        · rfl
        · rcases hNearest m (hPicked hMax).1 with rfl | hUnder
          · rfl
          · exact
              absurd (F.trans hOver hUnder) (Forest.above_irrefl i)

theorem parent_eq_none_iff
    (hDistinct : (hits.map Hit.id).Nodup)
    {j : Fin hits.length} :
    parent hits j = none ↔
      ∀ k, ¬ (indexForest hDistinct).above k j := by
  unfold parent
  rw [maxBy_eq_none_iff, List.filter_eq_nil_iff]
  simp only [List.mem_finRange, forall_const]
  rfl

variable [LinearOrder S] {sc : Scores S}

theorem sorted_by_key
    (hDistinct : (hits.map Hit.id).Nodup)
    (p : Fin hits.length → Bool) :
    (sortBy (byRankThenId hits sc)
      ((List.finRange hits.length).filter p)).Pairwise
        (fun a b =>
          a ≠ b ∧ orderKey hits sc a < orderKey hits sc b) := by
  have hKeys :
      (((List.finRange hits.length).filter p).map
        (orderKey hits sc)).Nodup := by
    apply ((List.nodup_finRange _).filter p).map
    intro a b hSame
    exact
      eq_of_idAt_eq hDistinct (congrArg (fun k => (ofLex k).2) hSame)
  apply
    (sortBy_pairwise (orderKey hits sc) byRankThenId_eq_gt_iff
      hKeys).imp
  intro a b hLt
  exact ⟨fun hSame => lt_irrefl _ (hSame ▸ hLt), hLt⟩

/- The sorts give the walk its roots and its children. -/
theorem childrenOf_hits
    (hDistinct : (hits.map Hit.id).Nodup) :
    Forest.Children (indexForest hDistinct)
      (fun a b => orderKey hits sc a < orderKey hits sc b)
      (roots hits sc) (children hits sc) where
  mem_roots := by
    intro a
    unfold roots
    rw [mem_sortBy, List.mem_filter, Option.isNone_iff_eq_none,
      parent_eq_none_iff hDistinct]
    simp only [indexForest, idForest, List.mem_finRange, true_and,
      forall_const]
  mem_children := by
    intro a c hA
    unfold children
    rw [mem_sortBy, List.mem_filter, decide_eq_true_eq,
      parent_eq_some_iff hDistinct]
    simp only [indexForest, idForest, List.mem_finRange, true_and,
      forall_const]
  sorted_roots := sorted_by_key hDistinct _
  sorted_children _ := sorted_by_key hDistinct _

end Scan

------------------------------------------------------------
-- The Hits In Order
------------------------------------------------------------

namespace Scan

variable {S T : Type}

/- A hit, or a matched descendant of it. -/
def InSubtree
    (a b : Hit S T) : Prop :=
  a.id = b.id ∨ isProperAncestor a.id b.id = true

/- The nearest matched ancestor of a hit. -/
def IsParent
    (hits : List (Hit S T))
    (p a : Hit S T) : Prop :=
  isProperAncestor p.id a.id = true ∧
    ∀ b ∈ hits, isProperAncestor b.id a.id = true →
      InSubtree b p

def IsRoot
    (hits : List (Hit S T))
    (a : Hit S T) : Prop :=
  ∀ b ∈ hits, ¬ isProperAncestor b.id a.id = true

/- Two roots, or two hits with one nearest matched ancestor. -/
def AreSiblings
    (hits : List (Hit S T))
    (a b : Hit S T) : Prop :=
  a.id ≠ b.id ∧
    (IsRoot hits a ∧ IsRoot hits b ∨
      ∃ p ∈ hits, IsParent hits p a ∧ IsParent hits p b)

variable [LinearOrder S]

/- The best rank in a hit's subtree. -/
def IsBest
    (sc : Scores S)
    (hits : List (Hit S T))
    (a : Hit S T)
    (r : Nat × S) : Prop :=
  (∃ h ∈ hits, InSubtree a h ∧ rank sc h = r) ∧
    ∀ h ∈ hits, InSubtree a h → toLex (rank sc h) ≤ toLex r

/- A better best rank, or the same and a smaller id. -/
def Better
    (sc : Scores S)
    (hits : List (Hit S T))
    (a b : Hit S T) : Prop :=
  ∃ r r', IsBest sc hits a r ∧ IsBest sc hits b r' ∧
    (toLex r' < toLex r ∨ r = r' ∧ a.id < b.id)

/- The depth-first walk of the forest of hits. -/
structure IsWalk
    (sc : Scores S)
    (hits out : List (Hit S T)) : Prop where
  ancestors :
    ∀ a ∈ hits, ∀ b ∈ hits,
      isProperAncestor a.id b.id = true → Forest.Before out a b
  contiguous :
    ∀ a ∈ hits, ∀ u v w, [u, v, w].Sublist out →
      InSubtree a u → InSubtree a w → InSubtree a v
  decided :
    ∀ a ∈ hits, ∀ b ∈ hits, a.id ≠ b.id →
      Better sc hits a b ∨ Better sc hits b a
  siblings :
    ∀ a ∈ hits, ∀ b ∈ hits, AreSiblings hits a b →
      Better sc hits a b →
        ∀ u ∈ hits, ∀ v ∈ hits, InSubtree a u → InSubtree b v →
          Forest.Before out u v

variable {hits : List (Hit S T)} {sc : Scores S}

theorem IsBest.unique
    {a : Hit S T}
    {r r' : Nat × S}
    (hBest : IsBest sc hits a r)
    (hBest' : IsBest sc hits a r') :
    r = r' := by
  rcases hBest.1 with ⟨h, hMem, hIn, rfl⟩
  rcases hBest'.1 with ⟨h', hMem', hIn', rfl⟩
  exact
    toLex_inj.mp
      (le_antisymm (hBest'.2 h hMem hIn) (hBest.2 h' hMem' hIn'))

theorem Better.asymm
    {a b : Hit S T}
    (hBetter : Better sc hits a b) :
    ¬ Better sc hits b a := by
  rintro ⟨r₂, r₂', hB, hA, hOther⟩
  rcases hBetter with ⟨r, r', hA', hB', hThis⟩
  rw [hA.unique hA', hB.unique hB'] at hOther
  rcases hThis with hLt | ⟨rfl, hLt⟩
  · rcases hOther with hGt | ⟨rfl, -⟩
    · exact lt_asymm hLt hGt
    · exact lt_irrefl _ hLt
  · rcases hOther with hGt | ⟨-, hGt⟩
    · exact lt_irrefl _ hGt
    · exact lt_asymm hLt hGt

/- What the code computes for a hit is its best rank. -/
theorem isBest_best
    (hDistinct : (hits.map Hit.id).Nodup)
    (i : Fin hits.length) :
    IsBest sc hits (hits.get i) (best hits sc i) := by
  let ranks :=
    ((List.finRange hits.length).filter
      (fun j =>
        j = i || isProperAncestor (idAt hits i) (idAt hits j))).map
      (fun j => rank sc (hits.get j))
  have hIn (j : Fin hits.length) :
      (j = i || isProperAncestor (idAt hits i) (idAt hits j)) =
          true ↔ InSubtree (hits.get i) (hits.get j) := by
    rw [Bool.or_eq_true, decide_eq_true_eq]
    apply or_congr_left
    constructor
    · rintro rfl
      rfl
    · intro hSame
      exact eq_of_idAt_eq hDistinct hSame.symm
  have hMem {r : Nat × S} :
      r ∈ ranks ↔
        ∃ h ∈ hits, InSubtree (hits.get i) h ∧ rank sc h = r := by
    simp only [ranks, List.mem_map, List.mem_filter,
      List.mem_finRange, true_and, hIn]
    constructor
    · rintro ⟨j, hUnder, rfl⟩
      exact ⟨hits.get j, List.get_mem hits j, hUnder, rfl⟩
    · rintro ⟨h, hHit, hUnder, rfl⟩
      rcases List.mem_iff_get.mp hHit with ⟨j, rfl⟩
      exact ⟨j, hUnder, rfl⟩
  have hOwn : rank sc (hits.get i) ∈ ranks :=
    hMem.mpr ⟨hits.get i, List.get_mem hits i, Or.inl rfl, rfl⟩
  cases hMax : maxBy rankCmp ranks with
  | none =>
      rw [maxBy_eq_none_iff.mp hMax] at hOwn
      cases hOwn
  | some m =>
      have hBest : best hits sc i = m := by
        unfold best
        rw [hMax]
        rfl
      have hSpec :=
        maxBy_spec toLex (fun _ _ => rankCmp_eq_gt_iff) hMax
      rw [hBest]
      refine ⟨hMem.mp hSpec.1, ?_⟩
      intro h hHit hUnder
      exact hSpec.2 _ (hMem.mpr ⟨h, hHit, hUnder, rfl⟩)

theorem better_of_orderKey_lt
    (hDistinct : (hits.map Hit.id).Nodup)
    {i j : Fin hits.length}
    (hLt : orderKey hits sc i < orderKey hits sc j) :
    Better sc hits (hits.get i) (hits.get j) :=
  ⟨_, _, isBest_best hDistinct i, isBest_best hDistinct j,
    orderKey_lt_iff.mp hLt⟩

/- Two hits with ids of their own are decided. -/
theorem better_or_better
    (hDistinct : (hits.map Hit.id).Nodup)
    {a b : Hit S T}
    (hA : a ∈ hits)
    (hB : b ∈ hits)
    (hNe : a.id ≠ b.id) :
    Better sc hits a b ∨ Better sc hits b a := by
  rcases List.mem_iff_get.mp hA with ⟨i, rfl⟩
  rcases List.mem_iff_get.mp hB with ⟨j, rfl⟩
  rcases lt_trichotomy (orderKey hits sc i) (orderKey hits sc j) with
    hLt | hSame | hGt
  · exact Or.inl (better_of_orderKey_lt hDistinct hLt)
  · exact absurd (congrArg (fun k => (ofLex k).2) hSame) hNe
  · exact Or.inr (better_of_orderKey_lt hDistinct hGt)

/- Each hit of an order without repeats is in its slot. -/
theorem takeSlots_eq
    {α : Type}
    {slots : List (Option α)}
    {order : List Nat}
    (hNodup : order.Nodup) :
    takeSlots slots order =
      order.filterMap (fun i => slots.getD i none) := by
  induction order generalizing slots with
  | nil => rfl
  | cons i rest ih =>
      have hFresh := List.nodup_cons.mp hNodup
      have hRest :
          rest.filterMap (fun j => (slots.set i none).getD j none) =
            rest.filterMap (fun j => slots.getD j none) := by
        apply List.filterMap_congr
        intro j hMem
        have hNe : i ≠ j := by
          rintro rfl
          exact hFresh.1 hMem
        rw [List.getD_eq_getElem?_getD, List.getElem?_set_ne hNe,
          ← List.getD_eq_getElem?_getD]
      rw [takeSlots, List.filterMap_cons]
      cases hSlot : slots.getD i none with
      | none => exact ih hFresh.2
      | some h =>
          dsimp only
          rw [ih hFresh.2, hRest]

omit [LinearOrder S] in
theorem takeSlots_hits
    {order : List (Fin hits.length)}
    (hNodup : order.Nodup) :
    takeSlots (hits.map some) (order.map Fin.val) =
      order.map hits.get := by
  rw [takeSlots_eq (hNodup.map Fin.val_injective),
    List.filterMap_map]
  conv_rhs => rw [← List.filterMap_eq_map]
  apply List.filterMap_congr
  intro i hMem
  simp

/- The order is a permutation, walked as the forest is. -/
theorem orderHits_sorted
    (sc : Scores S)
    (hDistinct : (hits.map Hit.id).Nodup) :
    ∃ out, orderHits hits sc = some out ∧ out.Perm hits ∧
      out.Pairwise
        ((hitForest hDistinct).Precedes (Better sc hits)) := by
  rcases
    Forest.walk_spec (@childrenOf_hits _ _ _ _ sc hDistinct)
      (fun hLt => not_lt_of_gt hLt)
      (List.nodup_finRange hits.length) with
    ⟨order, hWalk, hPerm, hSorted⟩
  have hLength : (indexForest hDistinct).nodes.length = hits.length :=
    List.length_finRange
  have hNodup : order.Nodup :=
    hPerm.nodup_iff.mpr (List.nodup_finRange _)
  rw [hLength] at hWalk
  refine ⟨order.map hits.get, ?_, ?_, ?_⟩
  · unfold orderHits
    rw [hWalk, Option.map_some, takeSlots_hits hNodup]
  · have hMap := hPerm.map hits.get
    have hAll :
        (indexForest hDistinct).nodes.map hits.get = hits :=
      List.map_get_finRange hits
    rwa [hAll] at hMap
  · rw [List.pairwise_map]
    apply hSorted.imp
    intro a b hPrecedes
    exact
      (carries_get hDistinct).precedes
        (fun _ _ hLt => better_of_orderKey_lt hDistinct hLt)
        hPrecedes

end Scan

------------------------------------------------------------
-- The Admission Order
------------------------------------------------------------

namespace Scan

variable {S T : Type} {hits : List (Hit S T)}

theorem under_of_inSubtree
    (hDistinct : (hits.map Hit.id).Nodup)
    {a b : Hit S T}
    (hA : a ∈ hits)
    (hB : b ∈ hits)
    (hIn : InSubtree a b) :
    (hitForest hDistinct).Under a b := by
  rcases hIn with hSame | hAbove
  · exact Or.inl (eq_of_id_eq hDistinct hA hB hSame)
  · exact Or.inr hAbove

theorem inSubtree_of_under
    (hDistinct : (hits.map Hit.id).Nodup)
    {a b : Hit S T}
    (hUnder : (hitForest hDistinct).Under a b) :
    InSubtree a b := by
  rcases hUnder with rfl | hAbove
  · exact Or.inl rfl
  · exact Or.inr hAbove

/- The nodes above a hit are its parent and those above it. -/
theorem siblings_of_areSiblings
    (hDistinct : (hits.map Hit.id).Nodup)
    {a b : Hit S T}
    (hSiblings : AreSiblings hits a b) :
    (hitForest hDistinct).Siblings a b := by
  refine ⟨fun hSame => hSiblings.1 (congrArg Hit.id hSame), ?_⟩
  intro c hC
  rcases hSiblings.2 with ⟨hRoot, hRoot'⟩ | ⟨p, hP, hThis, hThat⟩
  · exact iff_of_false (hRoot c hC) (hRoot' c hC)
  · have hParent {x : Hit S T} (hIs : IsParent hits p x) :
        (hitForest hDistinct).above c x ↔
          (hitForest hDistinct).Under c p := by
      constructor
      · intro hAbove
        exact
          under_of_inSubtree hDistinct hC hP (hIs.2 c hC hAbove)
      · rintro (rfl | hAbove)
        · exact hIs.1
        · exact isProperAncestor_trans hAbove hIs.1
    rw [hParent hThis, hParent hThat]

variable [LinearOrder S] {sc : Scores S}

/- Which hits there are settles the forest, not their order. -/
theorem isBest_of_perm
    {hits' : List (Hit S T)}
    (hPerm : hits'.Perm hits)
    {a : Hit S T}
    {r : Nat × S}
    (hBest : IsBest sc hits' a r) :
    IsBest sc hits a r := by
  rcases hBest with ⟨⟨h, hMem, hIn, hRank⟩, hMost⟩
  exact
    ⟨⟨h, hPerm.mem_iff.mp hMem, hIn, hRank⟩,
      fun h' hMem' => hMost h' (hPerm.mem_iff.mpr hMem')⟩

theorem precedes_of_perm
    {hits' : List (Hit S T)}
    (hDistinct : (hits.map Hit.id).Nodup)
    (hDistinct' : (hits'.map Hit.id).Nodup)
    (hPerm : hits'.Perm hits)
    {a b : Hit S T}
    (hPrecedes :
      (hitForest hDistinct').Precedes (Better sc hits') a b) :
    (hitForest hDistinct).Precedes (Better sc hits) a b := by
  have hCarries :
      Forest.Carries (hitForest hDistinct') (hitForest hDistinct)
        (fun h => h) :=
    { above := Iff.rfl
      injective := fun hSame => hSame
      mem := fun hMem => hPerm.mem_iff.mp hMem
      onto := fun hMem => ⟨_, hPerm.mem_iff.mpr hMem, rfl⟩ }
  apply hCarries.precedes _ hPrecedes
  rintro a b - - ⟨r, r', hBest, hBest', hFirst⟩
  exact
    ⟨r, r', isBest_of_perm hPerm hBest,
      isBest_of_perm hPerm hBest', hFirst⟩

theorem precedes_hits_asymm
    (hDistinct : (hits.map Hit.id).Nodup)
    {a b : Hit S T}
    (hPrecedes :
      (hitForest hDistinct).Precedes (Better sc hits) a b) :
    ¬ (hitForest hDistinct).Precedes (Better sc hits) b a := by
  refine Forest.precedes_asymm ?_ hPrecedes
  intro a b hBetter
  exact hBetter.asymm

theorem before_of_precedes
    (hDistinct : (hits.map Hit.id).Nodup)
    {out : List (Hit S T)}
    (hPerm : out.Perm hits)
    (hSorted :
      out.Pairwise
        ((hitForest hDistinct).Precedes (Better sc hits)))
    {a b : Hit S T}
    (hA : a ∈ hits)
    (hB : b ∈ hits)
    (hPrecedes :
      (hitForest hDistinct).Precedes (Better sc hits) a b) :
    Forest.Before out a b := by
  have hAsymm := precedes_hits_asymm hDistinct hPrecedes
  have hNe : a ≠ b := by
    rintro rfl
    exact hAsymm hPrecedes
  rcases
    Forest.before_or_before (hPerm.mem_iff.mpr hA)
      (hPerm.mem_iff.mpr hB) hNe with hBefore | hAfter
  · exact hBefore
  · exact absurd (hAfter.rel hSorted) hAsymm

theorem isWalk_of_sorted
    (hDistinct : (hits.map Hit.id).Nodup)
    {out : List (Hit S T)}
    (hPerm : out.Perm hits)
    (hSorted :
      out.Pairwise
        ((hitForest hDistinct).Precedes (Better sc hits))) :
    IsWalk sc hits out where
  ancestors a hA b hB hAbove :=
    before_of_precedes hDistinct hPerm hSorted hA hB
      (Or.inl hAbove)
  contiguous a hA u v w hThree hFirst hLast := by
    have hMem {x : Hit S T} (hIn : x ∈ [u, v, w]) : x ∈ hits :=
      hPerm.mem_iff.mp (hThree.subset hIn)
    have hPairs := Forest.rel_of_three hSorted hThree
    apply inSubtree_of_under hDistinct
    refine
      Forest.under_of_between ?_ hA
        (under_of_inSubtree hDistinct hA (hMem (by simp)) hFirst)
        (under_of_inSubtree hDistinct hA (hMem (by simp)) hLast)
        hPairs.1 hPairs.2
    intro a b hBetter
    exact hBetter.asymm
  decided a hA b hB hNe := better_or_better hDistinct hA hB hNe
  siblings a hA b hB hSiblings hBetter u hU v hV hIn hIn' := by
    apply before_of_precedes hDistinct hPerm hSorted hU hV
    exact
      Or.inr
        ⟨a, hA, b, hB, under_of_inSubtree hDistinct hA hU hIn,
          under_of_inSubtree hDistinct hB hV hIn',
          siblings_of_areSiblings hDistinct hSiblings, hBetter⟩

/-
  The order of hits with distinct ids is a walk of their
  forest, whatever order they come in.
-/
theorem orderHits_spec
    (sc : Scores S)
    (hits : List (Hit S T))
    (hDistinct : (hits.map Hit.id).Nodup) :
    ∃ out, orderHits hits sc = some out ∧ out.Perm hits ∧
      (∀ hits', hits'.Perm hits → orderHits hits' sc = some out) ∧
      IsWalk sc hits out := by
  rcases orderHits_sorted sc hDistinct with
    ⟨out, hOrder, hPerm, hSorted⟩
  refine
    ⟨out, hOrder, hPerm, ?_, isWalk_of_sorted hDistinct hPerm hSorted⟩
  intro hits' hSame
  have hDistinct' : (hits'.map Hit.id).Nodup :=
    (hSame.map Hit.id).nodup_iff.mpr hDistinct
  rcases orderHits_sorted sc hDistinct' with
    ⟨out', hOrder', hPerm', hSorted'⟩
  rw [hOrder']
  congr 1
  refine
    Forest.eq_of_pairwise ?_
      (hPerm'.trans (hSame.trans hPerm.symm)) ?_ hSorted
  · intro a b hBetter
    exact hBetter.asymm
  · apply hSorted'.imp
    intro a b hPrecedes
    exact precedes_of_perm hDistinct hDistinct' hSame hPrecedes

def natScores : Scores Nat where
  ofUsize n := n
  negInfinity := 0

/- A child with a better rank comes after its parent. -/
theorem orderHits_parentFirst :
    let parent : Hit Nat Unit :=
      { id := ['a'], score := some 6, specificity := 0, payload := () }
    let child : Hit Nat Unit :=
      { id := ['a', '/', 'b']
        score := some 9
        specificity := 0
        payload := () }
    ∃ out, orderHits [child, parent] natScores = some out ∧
      orderHits [parent, child] natScores = some out ∧
      Forest.Before out parent child := by
  intro parent child
  rcases
    orderHits_spec natScores [child, parent] (by decide) with
    ⟨out, hOrder, -, hSame, hWalk⟩
  exact
    ⟨out, hOrder, hSame _ (List.Perm.swap child parent []),
      hWalk.ancestors parent (by simp) child (by simp) (by decide)⟩

end Scan
