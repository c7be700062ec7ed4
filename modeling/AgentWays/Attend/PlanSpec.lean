import AgentWays.Lib.Cutoff
import AgentWays.Attend.ColdStart

/-
  The cold-start plan without its indices.

  Which messages the plan shows depends on the order they
  are given in only at a tie: messages of one kind and one
  age on both sides of the kind's cap. How many it shows
  never does.

  Key definitions include:
    * `Attend.capOf`
    * `Attend.upTo`
    * `Attend.newer`
    * `Attend.Untied`

  Main declarations:
    * `Attend.plan_deliver_of_untied`
    * `Attend.notShown_perm`
-/

------------------------------------------------------------
-- Kinds
------------------------------------------------------------

namespace Attend

/- The most messages of a kind that are shown. -/
def capOf : Nat → Nat
| 0 => addressedMax
| 1 => addressedMax
| _ => roomMax

/- A message of the kind that reaches the session. -/
def reachesAs
    (w : Window)
    (kind : Nat)
    (m : Room × Nat) : Bool :=
  w.reaches m.1 m.2 && decide (kindOf w m = kind)

/- How many of its kind are no older than the message. -/
def upTo
    (w : Window)
    (pending : List (Room × Nat))
    (m : Room × Nat) : Nat :=
  pending.countP
    (fun m' =>
      reachesAs w (kindOf w m) m' && decide (m'.2 ≤ m.2))

/- How many of its kind are newer. -/
def newer
    (w : Window)
    (pending : List (Room × Nat))
    (m : Room × Nat) : Nat :=
  pending.countP
    (fun m' =>
      reachesAs w (kindOf w m) m' && decide (m'.2 < m.2))

/- No kind's cap falls between messages of one age. -/
def Untied
    (w : Window)
    (pending : List (Room × Nat)) : Prop :=
  ∀ m ∈ pending,
    w.reaches m.1 m.2 = true →
      upTo w pending m ≤ capOf (kindOf w m) ∨
        capOf (kindOf w m) ≤ newer w pending m

instance
    (w : Window)
    (pending : List (Room × Nat)) :
    Decidable (Untied w pending) :=
  inferInstanceAs
    (Decidable
      (∀ m ∈ pending,
        w.reaches m.1 m.2 = true →
          upTo w pending m ≤ capOf (kindOf w m) ∨
            capOf (kindOf w m) ≤ newer w pending m))

theorem kindOf_lt
    (w : Window)
    (m : Room × Nat) :
    kindOf w m < 3 := by
  unfold kindOf
  split
  · omega
  · split <;> omega

end Attend

------------------------------------------------------------
-- Indices
------------------------------------------------------------

namespace Attend

variable {w : Window} {pending : List (Room × Nat)}

/- The indices of the kind that are still to be shown. -/
def ofKind
    (w : Window)
    (pending : List (Room × Nat))
    (deliver : List Bool)
    (kind : Nat) : List Nat :=
  (List.range pending.length).filter
    (fun i =>
      (deliver[i]?).getD false &&
        decide ((pending[i]?).map (kindOf w) = some kind))

def ageAt
    (pending : List (Room × Nat))
    (i : Nat) : Nat :=
  ((pending[i]?).map Prod.snd).getD 0

/- The indices a kind's cap takes out. -/
def cutAt
    (w : Window)
    (pending : List (Room × Nat))
    (kind : Nat) : List Nat :=
  Cutoff.beyond (ageAt pending) (capOf kind)
    (ofKind w pending
      (pending.map (fun m => w.reaches m.1 m.2)) kind)

theorem capKind_eq
    (deliver : List Bool)
    (kind max : Nat) :
    capKind w pending deliver kind max =
      deliver.mapIdx
        (fun i d =>
          d &&
            decide
              (i ∉ Cutoff.beyond (ageAt pending) max
                (ofKind w pending deliver kind))) :=
  rfl

theorem mem_ofKind
    {deliver : List Bool}
    {kind i : Nat} :
    i ∈ ofKind w pending deliver kind ↔
      deliver[i]? = some true ∧
        ∃ m, pending[i]? = some m ∧ kindOf w m = kind := by
  simp only [ofKind, List.mem_filter, List.mem_range,
    Bool.and_eq_true, decide_eq_true_eq,
    Option.map_eq_some_iff, Option.getD_eq_iff]
  constructor
  · rintro ⟨-, hDeliver | ⟨-, hFalse⟩, hKind⟩
    · exact ⟨hDeliver, hKind⟩
    · cases hFalse
  · rintro ⟨hDeliver, m, hGet, hKind⟩
    exact ⟨(List.getElem?_eq_some_iff.mp hGet).1,
      Or.inl hDeliver, m, hGet, hKind⟩

/- Only the answers for the kind's own messages matter. -/
theorem ofKind_congr
    {d e : List Bool}
    {kind : Nat}
    (hSame :
      ∀ (i : Nat) m, pending[i]? = some m → kindOf w m = kind →
        d[i]? = e[i]?) :
    ofKind w pending d kind = ofKind w pending e kind := by
  apply List.filter_congr
  intro i hMem
  have hLt := List.mem_range.mp hMem
  have hGet := List.getElem?_eq_getElem hLt
  by_cases hKind : kindOf w pending[i] = kind
  · rw [hSame i _ hGet hKind]
  · simp [hGet, hKind]

theorem kind_of_mem_cutAt
    {kind i : Nat}
    {m : Room × Nat}
    (hGet : pending[i]? = some m)
    (hMem : i ∈ cutAt w pending kind) :
    kindOf w m = kind := by
  rcases mem_ofKind.mp (Cutoff.mem_of_mem_beyond hMem) with
    ⟨-, m', hGet', hKind⟩
  rw [hGet] at hGet'
  cases hGet'
  exact hKind

/- A cap leaves the answers of the other kinds alone. -/
theorem getElem?_capKind_of_ne
    {deliver : List Bool}
    {kind max i : Nat}
    {m : Room × Nat}
    (hGet : pending[i]? = some m)
    (hKind : kindOf w m ≠ kind) :
    (capKind w pending deliver kind max)[i]? =
      deliver[i]? := by
  have hNot :
      i ∉ Cutoff.beyond (ageAt pending) max
        (ofKind w pending deliver kind) := by
    intro hMem
    rcases mem_ofKind.mp (Cutoff.mem_of_mem_beyond hMem) with
      ⟨-, m', hGet', hKind'⟩
    rw [hGet] at hGet'
    cases hGet'
    exact hKind hKind'
  rw [capKind_eq, List.getElem?_mapIdx]
  simp [hNot]

/- The plan: what reaches, less what each cap takes out. -/
theorem plan_deliver_eq
    (w : Window)
    (pending : List (Room × Nat)) :
    (plan pending w).deliver =
      pending.mapIdx
        (fun i m =>
          w.reaches m.1 m.2 &&
            decide (i ∉ cutAt w pending (kindOf w m))) := by
  let d₀ := pending.map (fun m => w.reaches m.1 m.2)
  let d₁ := capKind w pending d₀ 0 addressedMax
  let d₂ := capKind w pending d₁ 1 addressedMax
  have hOne :
      ofKind w pending d₁ 1 = ofKind w pending d₀ 1 := by
    apply ofKind_congr
    intro i m hGet hKind
    exact getElem?_capKind_of_ne hGet (by omega)
  have hTwo :
      ofKind w pending d₂ 2 = ofKind w pending d₀ 2 := by
    apply ofKind_congr
    intro i m hGet hKind
    rw [show d₂ = capKind w pending d₁ 1 addressedMax from rfl,
      getElem?_capKind_of_ne hGet (by omega),
      show d₁ = capKind w pending d₀ 0 addressedMax from rfl,
      getElem?_capKind_of_ne hGet (by omega)]
  have hDeliver :
      (plan pending w).deliver =
        capKind w pending d₂ 2 roomMax := rfl
  rw [hDeliver, capKind_eq, hTwo,
    show d₂ = capKind w pending d₁ 1 addressedMax from rfl,
    capKind_eq, hOne,
    show d₁ = capKind w pending d₀ 0 addressedMax from rfl,
    capKind_eq]
  apply List.ext_getElem?
  intro i
  simp only [List.getElem?_mapIdx, d₀, List.getElem?_map,
    Option.map_map]
  cases hGet : pending[i]? with
  | none => rfl
  | some m =>
      simp only [Option.map_some, Function.comp_apply,
        Option.some.injEq]
      -- Only the cap of the message's own kind can cut it.
      have hCut :
          ∀ kind, i ∈ cutAt w pending kind →
            kindOf w m = kind :=
        fun _ hMem => kind_of_mem_cutAt hGet hMem
      have h0 := hCut 0
      have h1 := hCut 1
      have h2 := hCut 2
      have hLt := kindOf_lt w m
      have hEq :
          (i ∉ cutAt w pending 0 ∧ i ∉ cutAt w pending 1 ∧
              i ∉ cutAt w pending 2) ↔
            i ∉ cutAt w pending (kindOf w m) := by
        constructor
        · rintro ⟨hA, hB, hC⟩
          have hKind :
              kindOf w m = 0 ∨ kindOf w m = 1 ∨
                kindOf w m = 2 := by
            omega
          rcases hKind with h | h | h <;> rw [h] <;> assumption
        · intro hNot
          refine ⟨?_, ?_, ?_⟩ <;> intro hMem
          · exact hNot (h0 hMem ▸ hMem)
          · exact hNot (h1 hMem ▸ hMem)
          · exact hNot (h2 hMem ▸ hMem)
      rw [← decide_eq_decide.mpr hEq, Bool.decide_and,
        Bool.decide_and]
      simp only [Bool.and_assoc]
      rfl

end Attend

------------------------------------------------------------
-- Counting Messages
------------------------------------------------------------

namespace Attend

variable {w : Window} {pending : List (Room × Nat)}

theorem map_getElem?_range
    {A : Type}
    (l : List A) :
    (List.range l.length).map (fun i => l[i]?) =
      l.map some := by
  apply List.ext_getElem
  · simp
  · intro i hLeft hRight
    simp at hLeft
    simp [hLeft]

/- Counting over the indices is counting over the list. -/
theorem countP_range_getElem?
    {A : Type}
    (l : List A)
    (p : Option A → Bool) :
    (List.range l.length).countP (fun i => p l[i]?) =
      l.countP (fun a => p (some a)) := by
  have hMap :
      ((List.range l.length).map (fun i => l[i]?)).countP p =
        (l.map some).countP p := by
    rw [map_getElem?_range]
  rw [List.countP_map, List.countP_map] at hMap
  exact hMap

/- The kind's indices, counted by the messages' ages. -/
theorem countP_ofKind
    (w : Window)
    (pending : List (Room × Nat))
    (kind : Nat)
    (p : Nat → Bool) :
    (ofKind w pending
      (pending.map (fun m => w.reaches m.1 m.2))
        kind).countP (fun i => p (ageAt pending i)) =
      pending.countP
        (fun m => reachesAs w kind m && p m.2) := by
  have hIndices :=
    countP_range_getElem? pending
      (fun o =>
        p ((o.map Prod.snd).getD 0) &&
          ((o.map (fun m => w.reaches m.1 m.2)).getD false &&
            decide (o.map (kindOf w) = some kind)))
  rw [ofKind, List.countP_filter]
  simp only [List.getElem?_map]
  refine hIndices.trans (List.countP_congr ?_)
  intro m _
  simp [reachesAs, and_comm]

theorem length_ofKind
    (kind : Nat) :
    (ofKind w pending
      (pending.map (fun m => w.reaches m.1 m.2))
        kind).length =
      pending.countP (reachesAs w kind) := by
  have hAll :=
    countP_ofKind w pending kind (fun _ => true)
  rw [List.countP_true] at hAll
  simpa using hAll

theorem nodup_ofKind
    {deliver : List Bool}
    {kind : Nat} :
    (ofKind w pending deliver kind).Nodup :=
  List.Nodup.filter _ List.nodup_range

/- Away from a tie the cap cuts by the count alone. -/
theorem mem_cutAt_of_untied
    {i : Nat}
    {m : Room × Nat}
    (hGet : pending[i]? = some m)
    (hReaches : w.reaches m.1 m.2 = true)
    (hUntied : Untied w pending) :
    i ∉ cutAt w pending (kindOf w m) ↔
      upTo w pending m ≤ capOf (kindOf w m) := by
  have hAge : ageAt pending i = m.2 := by
    simp [ageAt, hGet]
  have hIn :
      i ∈ ofKind w pending
        (pending.map (fun m => w.reaches m.1 m.2))
          (kindOf w m) := by
    rw [mem_ofKind]
    refine ⟨?_, m, hGet, rfl⟩
    simp [hGet, hReaches]
  constructor
  · intro hNot
    rcases hUntied m (List.mem_of_getElem? hGet) hReaches with
      hFew | hMany
    · exact hFew
    · refine absurd (Cutoff.mem_beyond hIn ?_) hNot
      rw [hAge, countP_ofKind w pending (kindOf w m)
        (fun a => decide (a < m.2))]
      exact hMany
  · intro hFew
    apply Cutoff.not_mem_beyond
    rw [hAge, countP_ofKind w pending (kindOf w m)
      (fun a => decide (a ≤ m.2))]
    exact hFew

/- What the plan shows when no cap falls on a tie. -/
theorem plan_deliver_of_untied
    (hUntied : Untied w pending) :
    (plan pending w).deliver =
      pending.map
        (fun m =>
          w.reaches m.1 m.2 &&
            decide
              (upTo w pending m ≤ capOf (kindOf w m))) := by
  rw [plan_deliver_eq]
  apply List.ext_getElem?
  intro i
  rw [List.getElem?_mapIdx, List.getElem?_map]
  cases hGet : pending[i]? with
  | none => rfl
  | some m =>
      by_cases hReaches : w.reaches m.1 m.2 = true
      · simp only [Option.map_some, hReaches, Bool.true_and,
          mem_cutAt_of_untied hGet hReaches hUntied]
      · simp [hReaches]

end Attend

------------------------------------------------------------
-- The Number Withheld
------------------------------------------------------------

namespace Attend

variable {w : Window} {pending : List (Room × Nat)}

theorem countP_by_kind
    {A : Type}
    {l : List A}
    (kind : A → Nat)
    (p : A → Bool)
    (hKind : ∀ a ∈ l, kind a < 3) :
    l.countP p =
      l.countP (fun a => p a && decide (kind a = 0)) +
        l.countP (fun a => p a && decide (kind a = 1)) +
        l.countP (fun a => p a && decide (kind a = 2)) := by
  induction l with
  | nil => rfl
  | cons a rest ih =>
      have hRest := ih (fun b hIn =>
        hKind b (List.mem_cons_of_mem a hIn))
      have hHead := hKind a List.mem_cons_self
      have hCases :
          kind a = 0 ∨ kind a = 1 ∨ kind a = 2 := by
        omega
      simp only [List.countP_cons]
      rcases hCases with h | h | h <;>
        cases hP : p a <;> simp [h] <;> omega

/- Whether the plan shows the message at an index. -/
def shownAt
    (w : Window)
    (pending : List (Room × Nat))
    (i : Nat) : Bool :=
  ((pending[i]?).map
    (fun m =>
      w.reaches m.1 m.2 &&
        decide (i ∉ cutAt w pending (kindOf w m)))).getD false

theorem countP_shownAt
    (w : Window)
    (pending : List (Room × Nat)) :
    (plan pending w).deliver.countP id =
      (List.range pending.length).countP
        (shownAt w pending) := by
  have hDeliver :
      (plan pending w).deliver =
        (List.range pending.length).map
          (shownAt w pending) := by
    rw [plan_deliver_eq]
    apply List.ext_getElem
    · simp
    · intro i hLeft hRight
      simp at hLeft
      simp [shownAt, hLeft]
  rw [hDeliver, List.countP_map]
  rfl

/- A kind shows all that reach, or as many as its cap. -/
theorem countP_shownAt_kind
    (kind : Nat) :
    (List.range pending.length).countP
        (fun i =>
          shownAt w pending i &&
            decide
              (((pending[i]?).map (kindOf w)).getD 0 =
                kind)) =
      min (capOf kind)
        (pending.countP (reachesAs w kind)) := by
  have hKept :
      ((ofKind w pending
        (pending.map (fun m => w.reaches m.1 m.2))
          kind).filter
            (fun i => decide (i ∉ cutAt w pending kind))).length =
        min (capOf kind) _ :=
    Cutoff.length_filter_not_mem_beyond nodup_ofKind
  rw [← length_ofKind, ← hKept, ofKind, List.filter_filter,
    ← List.countP_eq_length_filter]
  apply List.countP_congr
  intro i hMem
  have hGet :=
    List.getElem?_eq_getElem (List.mem_range.mp hMem)
  simp only [shownAt, List.getElem?_map, hGet,
    Option.map_some, Option.getD_some, Bool.and_eq_true,
    decide_eq_true_eq, Option.some.injEq]
  constructor
  · rintro ⟨⟨hReaches, hStays⟩, rfl⟩
    exact ⟨hStays, hReaches, rfl⟩
  · rintro ⟨hStays, hReaches, rfl⟩
    exact ⟨⟨hReaches, hStays⟩, rfl⟩

/- The number not shown, from the counts of the kinds. -/
theorem notShown_eq_counts
    (w : Window)
    (pending : List (Room × Nat)) :
    (plan pending w).notShown +
        (min (capOf 0) (pending.countP (reachesAs w 0)) +
          min (capOf 1) (pending.countP (reachesAs w 1)) +
          min (capOf 2) (pending.countP (reachesAs w 2))) =
      pending.length := by
  have hKinds :=
    countP_by_kind (l := List.range pending.length)
      (fun i => ((pending[i]?).map (kindOf w)).getD 0)
      (shownAt w pending) (by
        intro i hMem
        rw [List.getElem?_eq_getElem (List.mem_range.mp hMem)]
        exact kindOf_lt w _)
  rw [← countP_shownAt, countP_shownAt_kind,
    countP_shownAt_kind, countP_shownAt_kind] at hKinds
  have hLength :=
    List.length_eq_countP_add_countP id
      (l := (plan pending w).deliver)
  rw [length_plan] at hLength
  have hNot :
      (plan pending w).notShown =
        (plan pending w).deliver.countP
          (fun d => decide (¬ id d = true)) := by
    apply List.countP_congr
    intro d _
    cases d <;> simp
  omega

/- The number does not depend on the order. -/
theorem notShown_perm
    {pending' : List (Room × Nat)}
    (hPerm : pending.Perm pending') :
    (plan pending w).notShown = (plan pending' w).notShown := by
  have hLeft := notShown_eq_counts w pending
  have hRight := notShown_eq_counts w pending'
  rw [hPerm.countP_eq, hPerm.countP_eq, hPerm.countP_eq,
    hPerm.length_eq] at hLeft
  omega

theorem upTo_perm
    {pending' : List (Room × Nat)}
    (hPerm : pending.Perm pending')
    (m : Room × Nat) :
    upTo w pending m = upTo w pending' m :=
  hPerm.countP_eq _

/- Nor does it depend on it whether a cap falls on a tie. -/
theorem untied_perm
    {pending' : List (Room × Nat)}
    (hPerm : pending.Perm pending')
    (hUntied : Untied w pending) :
    Untied w pending' := by
  intro m hMem hReaches
  have hEither := hUntied m (hPerm.mem_iff.mpr hMem) hReaches
  rw [upTo_perm hPerm, newer, hPerm.countP_eq] at hEither
  exact hEither

end Attend
