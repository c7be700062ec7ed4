import Mathlib.Data.List.Perm.Basic
import Mathlib.Data.List.Nodup

/-
  A forest walked depth first, with a stack.

  A forest is some nodes and a relation that says which of
  them is above which; the nodes above a node form a chain.
  The walk puts a node before the nodes under it, and the
  nodes under one sibling before those under a later one.

  Key definitions include:
    * `Forest`
    * `Forest.Precedes`
    * `Forest.Carries`
    * `Forest.walk`

  Main declarations:
    * `Forest.precedes_asymm`
    * `Forest.eq_of_pairwise`
    * `Forest.under_of_between`
    * `Forest.walk_spec`
-/

------------------------------------------------------------
-- Forests
------------------------------------------------------------

/- Nodes, and which is above which. -/
structure Forest (α : Type) where
  nodes : List α
  above : α → α → Prop
  depth : α → Nat
  depth_lt : ∀ {a b}, above a b → depth a < depth b
  trans : ∀ {a b c}, above a b → above b c → above a c
  chain :
    ∀ {a b c}, a ∈ nodes → b ∈ nodes → above a c → above b c →
      a = b ∨ above a b ∨ above b a

namespace Forest

variable {α : Type} (F : Forest α)

/- A node, or one that it is above. -/
def Under
    (a b : α) : Prop :=
  a = b ∨ F.above a b

/- Two nodes with the same nodes above them. -/
def Siblings
    (a b : α) : Prop :=
  a ≠ b ∧ ∀ c ∈ F.nodes, F.above c a ↔ F.above c b

/- Under two siblings, the first before the second. -/
def Apart
    (lt : α → α → Prop)
    (a b : α) : Prop :=
  ∃ a' ∈ F.nodes, ∃ b' ∈ F.nodes,
    F.Under a' a ∧ F.Under b' b ∧ F.Siblings a' b' ∧ lt a' b'

/- Before in the walk: above, or under an earlier sibling. -/
def Precedes
    (lt : α → α → Prop)
    (a b : α) : Prop :=
  F.above a b ∨ F.Apart lt a b

variable {F} {lt : α → α → Prop} {a b c : α}

theorem above_irrefl
    (a : α) :
    ¬ F.above a a :=
  fun hAbove => Nat.lt_irrefl _ (F.depth_lt hAbove)

theorem Under.refl
    (a : α) :
    F.Under a a :=
  Or.inl rfl

theorem Under.trans
    (hUnder : F.Under a b)
    (hUnder' : F.Under b c) :
    F.Under a c := by
  rcases hUnder with rfl | hAbove
  · exact hUnder'
  · rcases hUnder' with rfl | hAbove'
    · exact Or.inr hAbove
    · exact Or.inr (F.trans hAbove hAbove')

theorem above_of_above_under
    (hAbove : F.above a b)
    (hUnder : F.Under b c) :
    F.above a c := by
  rcases hUnder with rfl | hAbove'
  · exact hAbove
  · exact F.trans hAbove hAbove'

/- Two nodes over one node are over one another. -/
theorem under_or_above
    (hA : a ∈ F.nodes)
    (hB : b ∈ F.nodes)
    (hUnder : F.Under a c)
    (hUnder' : F.Under b c) :
    F.Under a b ∨ F.above b a := by
  rcases hUnder with rfl | hAbove
  · rcases hUnder' with rfl | hAbove'
    · exact Or.inl (Under.refl _)
    · exact Or.inr hAbove'
  · rcases hUnder' with rfl | hAbove'
    · exact Or.inl (Or.inr hAbove)
    · rcases F.chain hA hB hAbove hAbove' with
        rfl | hFirst | hSecond
      · exact Or.inl (Under.refl _)
      · exact Or.inl (Or.inr hFirst)
      · exact Or.inr hSecond

theorem Siblings.symm
    (hSiblings : F.Siblings a b) :
    F.Siblings b a :=
  ⟨hSiblings.1.symm,
    fun c hMem => (hSiblings.2 c hMem).symm⟩

theorem Siblings.not_above
    (hA : a ∈ F.nodes)
    (hSiblings : F.Siblings a b) :
    ¬ F.above a b :=
  fun hAbove =>
    above_irrefl a ((hSiblings.2 a hA).mpr hAbove)

/- No node is under two siblings. -/
theorem Siblings.not_under
    (hA : a ∈ F.nodes)
    (hB : b ∈ F.nodes)
    (hSiblings : F.Siblings a b)
    (hUnder : F.Under a c) :
    ¬ F.Under b c := by
  intro hUnder'
  rcases under_or_above hA hB hUnder hUnder' with
    (rfl | hAbove) | hAbove
  · exact hSiblings.1 rfl
  · exact hSiblings.not_above hA hAbove
  · exact hSiblings.symm.not_above hB hAbove

/- A node over one sibling, and not it, is over the other. -/
theorem Siblings.above_of_above
    (hC : c ∈ F.nodes)
    (hSiblings : F.Siblings a b)
    (hAbove : F.above c a) :
    F.above c b :=
  (hSiblings.2 c hC).mp hAbove

theorem Apart.not_under
    (hApart : F.Apart lt a b) :
    ¬ F.Under a b := by
  rcases hApart with
    ⟨a', hA, b', hB, hUnder, hUnder', hSiblings, -⟩
  intro hOver
  exact hSiblings.not_under hA hB (hUnder.trans hOver) hUnder'

theorem Apart.not_under'
    (hApart : F.Apart lt a b) :
    ¬ F.Under b a := by
  rcases hApart with
    ⟨a', hA, b', hB, hUnder, hUnder', hSiblings, -⟩
  intro hOver
  exact hSiblings.not_under hA hB hUnder (hUnder'.trans hOver)

/- What is under two nodes is apart as they are. -/
theorem Apart.under
    {a' b' : α}
    (hApart : F.Apart lt a b)
    (hUnder : F.Under a a')
    (hUnder' : F.Under b b') :
    F.Apart lt a' b' := by
  rcases hApart with
    ⟨x, hX, y, hY, hOver, hOver', hSiblings, hLt⟩
  exact
    ⟨x, hX, y, hY, hOver.trans hUnder, hOver'.trans hUnder',
      hSiblings, hLt⟩

/- Siblings over a pair of nodes are no deeper than others. -/
theorem Siblings.not_above_other
    {x y x' y' : α}
    (hX : x ∈ F.nodes)
    (hY : y ∈ F.nodes)
    (hOverY : F.Under y b)
    (hOverY' : F.Under y' b)
    (hSiblings : F.Siblings x y)
    (hSiblings' : F.Siblings x' y') :
    ¬ F.above x x' := by
  intro hAbove
  have hBelow := hSiblings'.above_of_above hX hAbove
  have hOver := above_of_above_under hBelow hOverY'
  exact hSiblings.not_under hX hY (Or.inr hOver) hOverY

theorem Apart.asymm
    (hLt : ∀ {a b}, lt a b → ¬ lt b a)
    (hApart : F.Apart lt a b) :
    ¬ F.Apart lt b a := by
  rintro ⟨y', hY', x', hX', hOverY', hOverX', hSiblings', hLt'⟩
  rcases hApart with
    ⟨x, hX, y, hY, hOverX, hOverY, hSiblings, hBefore⟩
  have hSameX : x = x' := by
    rcases under_or_above hX hX' hOverX hOverX' with
      (hSame | hAbove) | hAbove
    · exact hSame
    · exact
        absurd hAbove
          (hSiblings.not_above_other hX hY hOverY hOverY'
            hSiblings'.symm)
    · exact
        absurd hAbove
          (hSiblings'.symm.not_above_other hX' hY' hOverY'
            hOverY hSiblings)
  have hSameY : y = y' := by
    rcases under_or_above hY hY' hOverY hOverY' with
      (hSame | hAbove) | hAbove
    · exact hSame
    · exact
        absurd hAbove
          (hSiblings.symm.not_above_other hY hX hOverX hOverX'
            hSiblings')
    · exact
        absurd hAbove
          (hSiblings'.not_above_other hY' hX' hOverX' hOverX
            hSiblings.symm)
  rw [hSameX, hSameY] at hBefore
  exact hLt hBefore hLt'

theorem precedes_asymm
    (hLt : ∀ {a b}, lt a b → ¬ lt b a)
    (hPrecedes : F.Precedes lt a b) :
    ¬ F.Precedes lt b a := by
  rintro (hAbove' | hApart')
  · rcases hPrecedes with hAbove | hApart
    · exact above_irrefl a (F.trans hAbove hAbove')
    · exact hApart.not_under' (Or.inr hAbove')
  · rcases hPrecedes with hAbove | hApart
    · exact hApart'.not_under' (Or.inr hAbove)
    · exact hApart.asymm hLt hApart'

/- The order of a walk is settled by the forest. -/
theorem eq_of_pairwise
    {xs ys : List α}
    (hLt : ∀ {a b}, lt a b → ¬ lt b a)
    (hPerm : xs.Perm ys)
    (hXs : xs.Pairwise (F.Precedes lt))
    (hYs : ys.Pairwise (F.Precedes lt)) :
    xs = ys := by
  apply hPerm.eq_of_pairwise _ hXs hYs
  intro a b _ _ hPrecedes hPrecedes'
  exact absurd hPrecedes' (precedes_asymm hLt hPrecedes)

/- Between two nodes under a node are only nodes under it. -/
theorem under_of_between
    {v w : α}
    (hLt : ∀ {a b}, lt a b → ¬ lt b a)
    (hA : a ∈ F.nodes)
    (hUnder : F.Under a b)
    (hUnder' : F.Under a w)
    (hBefore : F.Precedes lt b v)
    (hAfter : F.Precedes lt v w) :
    F.Under a v := by
  rcases hBefore with hAbove | hApart
  · exact hUnder.trans (Or.inr hAbove)
  rcases hApart with
    ⟨x, hX, y, hY, hOver, hOver', hSiblings, hBefore⟩
  rcases under_or_above hX hA hOver hUnder with hWhole | hInside
  · -- All that is under the node is before what is under `y`.
    have hAfter' : F.Apart lt w v :=
      ⟨x, hX, y, hY, hWhole.trans hUnder', hOver', hSiblings,
        hBefore⟩
    exact absurd (Or.inr hAfter') (precedes_asymm hLt hAfter)
  · have hAbove := hSiblings.above_of_above hA hInside
    exact Or.inr (above_of_above_under hAbove hOver')

end Forest

------------------------------------------------------------
-- The Same Forest, Named Otherwise
------------------------------------------------------------

namespace Forest

variable {α β : Type} {F : Forest α} {G : Forest β} {f : α → β}

/- A forest carried over to other nodes, one for one. -/
structure Carries
    (F : Forest α)
    (G : Forest β)
    (f : α → β) : Prop where
  above : ∀ {a b}, F.above a b ↔ G.above (f a) (f b)
  injective : ∀ {a b}, f a = f b → a = b
  mem : ∀ {a}, a ∈ F.nodes → f a ∈ G.nodes
  onto : ∀ {b}, b ∈ G.nodes → ∃ a ∈ F.nodes, f a = b

theorem Carries.under
    (hCarries : Carries F G f)
    {a b : α}
    (hUnder : F.Under a b) :
    G.Under (f a) (f b) := by
  rcases hUnder with rfl | hAbove
  · exact Under.refl _
  · exact Or.inr (hCarries.above.mp hAbove)

theorem Carries.siblings
    (hCarries : Carries F G f)
    {a b : α}
    (hSiblings : F.Siblings a b) :
    G.Siblings (f a) (f b) := by
  refine ⟨fun hSame => hSiblings.1 (hCarries.injective hSame), ?_⟩
  intro c hC
  rcases hCarries.onto hC with ⟨c, hNode, rfl⟩
  rw [← hCarries.above, ← hCarries.above]
  exact hSiblings.2 c hNode

theorem Carries.precedes
    (hCarries : Carries F G f)
    {lt : α → α → Prop}
    {lt' : β → β → Prop}
    (hLt :
      ∀ {a b}, a ∈ F.nodes → b ∈ F.nodes → lt a b →
        lt' (f a) (f b))
    {a b : α}
    (hPrecedes : F.Precedes lt a b) :
    G.Precedes lt' (f a) (f b) := by
  rcases hPrecedes with hAbove | hApart
  · exact Or.inl (hCarries.above.mp hAbove)
  · rcases hApart with
      ⟨x, hX, y, hY, hOver, hOver', hSiblings, hBefore⟩
    exact
      Or.inr
        ⟨f x, hCarries.mem hX, f y, hCarries.mem hY,
          hCarries.under hOver, hCarries.under hOver',
          hCarries.siblings hSiblings, hLt hX hY hBefore⟩

end Forest

------------------------------------------------------------
-- Before
------------------------------------------------------------

namespace Forest

variable {α : Type}

/- Two elements of a list, one before the other. -/
def Before
    (xs : List α)
    (a b : α) : Prop :=
  [a, b].Sublist xs

theorem before_or_before
    {xs : List α}
    {a b : α}
    (hA : a ∈ xs)
    (hB : b ∈ xs)
    (hNe : a ≠ b) :
    Before xs a b ∨ Before xs b a := by
  rcases List.append_of_mem hA with ⟨front, back, rfl⟩
  rcases List.mem_append.mp hB with hFront | hBack
  · refine Or.inr ?_
    have hFirst := List.singleton_sublist.mpr hFront
    exact hFirst.append (List.Sublist.cons_cons a (List.nil_sublist _))
  · rcases List.mem_cons.mp hBack with hSame | hLater
    · exact absurd hSame.symm hNe
    · refine Or.inl ?_
      apply List.Sublist.trans _ (List.sublist_append_right front _)
      exact
        List.Sublist.cons_cons a
          (List.singleton_sublist.mpr hLater)

theorem Before.rel
    {xs : List α}
    {r : α → α → Prop}
    {a b : α}
    (hSorted : xs.Pairwise r)
    (hBefore : Before xs a b) :
    r a b := by
  have hTwo := hSorted.sublist hBefore
  simpa using hTwo

/- Of three elements in their order, each pair is related. -/
theorem rel_of_three
    {xs : List α}
    {r : α → α → Prop}
    {a b c : α}
    (hSorted : xs.Pairwise r)
    (hThree : [a, b, c].Sublist xs) :
    r a b ∧ r b c := by
  have hSub := hSorted.sublist hThree
  simp only [List.pairwise_cons, List.mem_cons] at hSub
  exact ⟨hSub.1 b (Or.inl rfl), hSub.2.1 c (Or.inl rfl)⟩

end Forest

------------------------------------------------------------
-- The Walk
------------------------------------------------------------

namespace Forest

variable {α : Type}

/-
  Nodes taken from a stack, each replaced by its children;
  none where the fuel is spent before the stack.
-/
def walk
    (children : α → List α) :
    Nat → List α → List α → Option (List α)
| _, [], order => some order
| 0, _ :: _, _ => none
| fuel + 1, i :: stack, order =>
    walk children fuel (children i ++ stack) (order ++ [i])

/- The children of each node, and the roots, siblings in order. -/
structure Children
    (F : Forest α)
    (lt : α → α → Prop)
    (roots : List α)
    (children : α → List α) : Prop where
  mem_roots :
    ∀ {a}, a ∈ roots ↔ a ∈ F.nodes ∧ ∀ b ∈ F.nodes, ¬ F.above b a
  mem_children :
    ∀ {a c}, a ∈ F.nodes →
      (c ∈ children a ↔
        c ∈ F.nodes ∧ F.above a c ∧
          ∀ b ∈ F.nodes, F.above b c → F.Under b a)
  sorted_roots : roots.Pairwise (fun a b => a ≠ b ∧ lt a b)
  sorted_children :
    ∀ {a}, a ∈ F.nodes →
      (children a).Pairwise (fun a b => a ≠ b ∧ lt a b)

variable {F : Forest α} {lt : α → α → Prop} {roots : List α}
  {children : α → List α}

/- The nodes above a child are its parent and those above it. -/
theorem Children.above_iff
    (hChildren : Children F lt roots children)
    {a b c : α}
    (hA : a ∈ F.nodes)
    (hC : c ∈ children a)
    (hB : b ∈ F.nodes) :
    F.above b c ↔ F.Under b a := by
  have hMem := (hChildren.mem_children hA).mp hC
  constructor
  · exact hMem.2.2 b hB
  · rintro (rfl | hAbove)
    · exact hMem.2.1
    · exact F.trans hAbove hMem.2.1

/-
  What is so at each turn: the order and the stack are as
  they will be walked, and a node that is in neither is under
  a node of the stack.
-/
structure Walked
    (F : Forest α)
    (lt : α → α → Prop)
    (stack order : List α) : Prop where
  nodes : ∀ a ∈ order ++ stack, a ∈ F.nodes
  ordered : order.Pairwise (F.Precedes lt)
  before : ∀ a ∈ order, ∀ s ∈ stack, F.Precedes lt a s
  stacked : stack.Pairwise (F.Apart lt)
  reaches :
    ∀ a ∈ F.nodes, a ∈ order ∨ ∃ s ∈ stack, F.Under s a

theorem Precedes.under
    {a b c : α}
    (hPrecedes : F.Precedes lt a b)
    (hUnder : F.Under b c) :
    F.Precedes lt a c := by
  rcases hPrecedes with hAbove | hApart
  · exact Or.inl (above_of_above_under hAbove hUnder)
  · exact Or.inr (hApart.under (Under.refl a) hUnder)

/- Nodes with one set of nodes above them, in order, are apart. -/
theorem apart_of_sorted
    {xs : List α}
    (hNodes : ∀ a ∈ xs, a ∈ F.nodes)
    (hSame :
      ∀ a ∈ xs, ∀ b ∈ xs, ∀ c ∈ F.nodes,
        F.above c a ↔ F.above c b)
    (hSorted : xs.Pairwise (fun a b => a ≠ b ∧ lt a b)) :
    xs.Pairwise (F.Apart lt) := by
  apply hSorted.imp_of_mem
  rintro a b hA hB ⟨hNe, hLt⟩
  exact
    ⟨a, hNodes a hA, b, hNodes b hB, Under.refl a, Under.refl b,
      ⟨hNe, hSame a hA b hB⟩, hLt⟩

/- Of the nodes over a node with a property, one is topmost. -/
theorem exists_top
    {p : α → Prop}
    {a : α}
    (hA : a ∈ F.nodes)
    (hP : p a) :
    ∃ k ∈ F.nodes, p k ∧ F.Under k a ∧
      ∀ b ∈ F.nodes, F.above b k → ¬ p b := by
  induction hDepth : F.depth a using Nat.strongRecOn
    generalizing a with
  | ind n ih =>
      by_cases hTop : ∀ b ∈ F.nodes, F.above b a → ¬ p b
      · exact ⟨a, hA, hP, Under.refl a, hTop⟩
      · push Not at hTop
        rcases hTop with ⟨b, hB, hAbove, hPb⟩
        have hLess : F.depth b < n := by
          rw [← hDepth]
          exact F.depth_lt hAbove
        rcases ih _ hLess hB hPb rfl with
          ⟨k, hK, hPk, hUnder, hTop⟩
        exact
          ⟨k, hK, hPk, hUnder.trans (Or.inr hAbove), hTop⟩

namespace Walked

theorem start
    (hChildren : Children F lt roots children) :
    Walked F lt roots [] where
  nodes a hMem := (hChildren.mem_roots.mp hMem).1
  ordered := List.Pairwise.nil
  before a hMem := by cases hMem
  stacked := by
    apply apart_of_sorted
    · exact fun a hMem => (hChildren.mem_roots.mp hMem).1
    · intro a hA b hB c hC
      exact
        iff_of_false ((hChildren.mem_roots.mp hA).2 c hC)
          ((hChildren.mem_roots.mp hB).2 c hC)
    · exact hChildren.sorted_roots
  reaches a hMem := by
    rcases exists_top (p := fun _ => True) hMem trivial with
      ⟨k, hK, -, hUnder, hTop⟩
    refine Or.inr ⟨k, hChildren.mem_roots.mpr ⟨hK, ?_⟩, hUnder⟩
    intro b hB hAbove
    exact hTop b hB hAbove trivial

variable {i : α} {stack order : List α}

/- A turn puts the children in the place of their parent. -/
theorem step
    (hChildren : Children F lt roots children)
    (hWalked : Walked F lt (i :: stack) order) :
    Walked F lt (children i ++ stack) (order ++ [i]) := by
  have hNode : i ∈ F.nodes :=
    hWalked.nodes i (by simp)
  have hChild {k : α} (hMem : k ∈ children i) :=
    (hChildren.mem_children hNode).mp hMem
  have hApart :=
    (List.pairwise_cons.mp hWalked.stacked).1
  refine
    { nodes := ?_
      ordered := ?_
      before := ?_
      stacked := ?_
      reaches := ?_ }
  · intro a hMem
    simp only [List.mem_append] at hMem
    rcases hMem with (hOrder | hThis) | hKid | hStack
    · exact hWalked.nodes a (List.mem_append_left _ hOrder)
    · rw [List.mem_singleton.mp hThis]
      exact hNode
    · exact (hChild hKid).1
    · exact
        hWalked.nodes a
          (List.mem_append_right _ (List.mem_cons_of_mem i hStack))
  · rw [List.pairwise_append]
    refine ⟨hWalked.ordered, List.pairwise_singleton _ i, ?_⟩
    intro a hA b hB
    rw [List.mem_singleton.mp hB]
    exact hWalked.before a hA i List.mem_cons_self
  · intro a hA s hS
    rcases List.mem_append.mp hA with hOrder | hThis
    · rcases List.mem_append.mp hS with hKid | hStack
      · have hBefore :=
          hWalked.before a hOrder i List.mem_cons_self
        exact hBefore.under (Or.inr (hChild hKid).2.1)
      · exact
          hWalked.before a hOrder s (List.mem_cons_of_mem i hStack)
    · rw [List.mem_singleton.mp hThis]
      rcases List.mem_append.mp hS with hKid | hStack
      · exact Or.inl (hChild hKid).2.1
      · exact Or.inr (hApart s hStack)
  · rw [List.pairwise_append]
    refine
      ⟨?_, (List.pairwise_cons.mp hWalked.stacked).2, ?_⟩
    · apply apart_of_sorted
      · exact fun a hMem => (hChild hMem).1
      · intro a hA b hB c hC
        rw [hChildren.above_iff hNode hA hC,
          hChildren.above_iff hNode hB hC]
      · exact hChildren.sorted_children hNode
    · intro k hKid s hStack
      exact
        (hApart s hStack).under (Or.inr (hChild hKid).2.1)
          (Under.refl s)
  · intro a hMem
    rcases hWalked.reaches a hMem with hOrder | ⟨s, hS, hUnder⟩
    · exact Or.inl (List.mem_append_left _ hOrder)
    rcases List.mem_cons.mp hS with rfl | hStack
    · rcases hUnder with rfl | hAbove
      · exact Or.inl List.mem_concat_self
      · -- The child that the node is under is the topmost
        -- below the parent.
        rcases exists_top (p := F.above s) hMem hAbove with
          ⟨k, hK, hBelow, hUnder, hTop⟩
        refine
          Or.inr
            ⟨k, List.mem_append_left _ ?_, hUnder⟩
        refine
          (hChildren.mem_children hNode).mpr ⟨hK, hBelow, ?_⟩
        intro b hB hAbove'
        rcases F.chain hB hNode hAbove' hBelow with
          rfl | hOver | hInside
        · exact Under.refl _
        · exact Or.inr hOver
        · exact absurd hInside (hTop b hB hAbove')
    · exact
        Or.inr ⟨s, List.mem_append_right _ hStack, hUnder⟩

theorem nodup
    (hIrrefl : ∀ a, ¬ F.Precedes lt a a)
    (hWalked : Walked F lt stack order) :
    order.Nodup := by
  apply hWalked.ordered.imp
  rintro a b hPrecedes rfl
  exact hIrrefl a hPrecedes

theorem length_le
    (hIrrefl : ∀ a, ¬ F.Precedes lt a a)
    (hWalked : Walked F lt stack order) :
    order.length ≤ F.nodes.length := by
  have hSub : order ⊆ F.nodes :=
    fun a hMem => hWalked.nodes a (List.mem_append_left _ hMem)
  exact
    (List.subperm_of_subset (hWalked.nodup hIrrefl)
      hSub).length_le

end Walked

/- Once the stack is empty, every node is in the order. -/
theorem perm_of_walked
    {order : List α}
    (hIrrefl : ∀ a, ¬ F.Precedes lt a a)
    (hNodes : F.nodes.Nodup)
    (hWalked : Walked F lt [] order) :
    order.Perm F.nodes := by
  rw [List.perm_ext_iff_of_nodup (hWalked.nodup hIrrefl) hNodes]
  intro a
  constructor
  · intro hMem
    exact hWalked.nodes a (List.mem_append_left _ hMem)
  · intro hMem
    rcases hWalked.reaches a hMem with hOrder | ⟨s, hS, -⟩
    · exact hOrder
    · cases hS

theorem walk_of_walked
    {fuel : Nat}
    {stack order : List α}
    (hChildren : Children F lt roots children)
    (hIrrefl : ∀ a, ¬ F.Precedes lt a a)
    (hNodes : F.nodes.Nodup)
    (hWalked : Walked F lt stack order)
    (hFuel : F.nodes.length ≤ order.length + fuel) :
    ∃ out, walk children fuel stack order = some out ∧
      out.Perm F.nodes ∧ out.Pairwise (F.Precedes lt) := by
  induction fuel generalizing stack order with
  | zero =>
      cases stack with
      | nil =>
          exact
            ⟨order, rfl, perm_of_walked hIrrefl hNodes hWalked,
              hWalked.ordered⟩
      | cons i stack =>
          have hLength :=
            (hWalked.step hChildren).length_le hIrrefl
          rw [List.length_append, List.length_singleton] at hLength
          omega
  | succ fuel ih =>
      cases stack with
      | nil =>
          exact
            ⟨order, rfl, perm_of_walked hIrrefl hNodes hWalked,
              hWalked.ordered⟩
      | cons i stack =>
          apply ih (hWalked.step hChildren)
          rw [List.length_append, List.length_singleton]
          omega

/- The walk ends, and its order is that of the forest. -/
theorem walk_spec
    (hChildren : Children F lt roots children)
    (hLt : ∀ {a b}, lt a b → ¬ lt b a)
    (hNodes : F.nodes.Nodup) :
    ∃ out, walk children F.nodes.length roots [] = some out ∧
      out.Perm F.nodes ∧ out.Pairwise (F.Precedes lt) := by
  have hIrrefl (a : α) : ¬ F.Precedes lt a a :=
    fun hPrecedes => precedes_asymm hLt hPrecedes hPrecedes
  exact
    walk_of_walked hChildren hIrrefl hNodes
      (Walked.start hChildren) (by simp)

end Forest
