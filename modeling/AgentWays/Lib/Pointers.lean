import Mathlib.Data.List.Nodup
import Mathlib.Data.List.Perm.Subperm
import Mathlib.Logic.Relation
import Mathlib.Logic.Function.Basic

/-
  Chains of pointers: each node points at one node or at
  none, and a chain ends at the first node that points at
  none.

  A node taken out of the middle of a chain is spliced: what
  pointed at it points where it pointed. A node at the end
  of a chain may be redirected to another end.

  Key definitions include:
    * `Pointers.Ends`
    * `Pointers.follow`, the walk of so many nodes
    * `Pointers.splice`
    * `Pointers.restrict`

  Main declarations:
    * `Pointers.Ends.unique`
    * `Pointers.Ends.no_loop`
    * `Pointers.follow_of_ends`
    * `Pointers.ends_splice`
    * `Pointers.ends_update`
    * `Pointers.exists_ends_restrict`
-/

------------------------------------------------------------
-- Chain Ends
------------------------------------------------------------

namespace Pointers

variable {κ : Type} {next : κ → Option κ} {a b s t x y : κ}

/- The chain of `a` ends at `s`, after `n` pointers. -/
inductive EndsIn
    (next : κ → Option κ) : Nat → κ → κ → Prop
| stop {a : κ}
    (hNone : next a = none) : EndsIn next 0 a a
| go {n : Nat} {a b s : κ}
    (hNext : next a = some b)
    (hRest : EndsIn next n b s) : EndsIn next (n + 1) a s

/- The chain of `a` ends at `s`. -/
def Ends
    (next : κ → Option κ)
    (a s : κ) : Prop :=
  ∃ n, EndsIn next n a s

theorem Ends.stop
    (hNone : next a = none) :
    Ends next a a :=
  ⟨0, EndsIn.stop hNone⟩

theorem Ends.go
    (hNext : next a = some b)
    (hRest : Ends next b s) :
    Ends next a s := by
  rcases hRest with ⟨n, hRest⟩
  exact ⟨n + 1, EndsIn.go hNext hRest⟩

theorem EndsIn.end_eq_none
    {n : Nat}
    (hEnds : EndsIn next n a s) :
    next s = none := by
  induction hEnds with
  | stop hNone => exact hNone
  | go hNext hRest ih => exact ih

theorem Ends.end_eq_none
    (hEnds : Ends next a s) :
    next s = none := by
  rcases hEnds with ⟨n, hEnds⟩
  exact hEnds.end_eq_none

/- What a node points at has the node's own end. -/
theorem Ends.tail
    (hEnds : Ends next a s)
    (hNext : next a = some b) :
    Ends next b s := by
  rcases hEnds with ⟨n, hEnds⟩
  cases hEnds with
  | stop hNone =>
      rw [hNext] at hNone
      cases hNone
  | go hStep hRest =>
      rw [hNext, Option.some.injEq] at hStep
      subst hStep
      exact ⟨_, hRest⟩

theorem Ends.eq_of_none
    (hEnds : Ends next a s)
    (hNone : next a = none) :
    s = a := by
  rcases hEnds with ⟨n, hEnds⟩
  cases hEnds with
  | stop => rfl
  | go hNext hRest =>
      rw [hNone] at hNext
      cases hNext

/- A chain has one length and one end. -/
theorem EndsIn.unique
    {n m : Nat}
    (hFirst : EndsIn next n a s)
    (hSecond : EndsIn next m a t) :
    n = m ∧ s = t := by
  induction hFirst generalizing m with
  | stop hNone =>
      cases hSecond with
      | stop => exact ⟨rfl, rfl⟩
      | go hNext hRest =>
          rw [hNone] at hNext
          cases hNext
  | go hNext hRest ih =>
      cases hSecond with
      | stop hNone =>
          rw [hNext] at hNone
          cases hNone
      | go hNext' hRest' =>
          rw [hNext, Option.some.injEq] at hNext'
          subst hNext'
          rcases ih hRest' with ⟨rfl, rfl⟩
          exact ⟨rfl, rfl⟩

theorem Ends.unique
    (hFirst : Ends next a s)
    (hSecond : Ends next a t) :
    s = t := by
  rcases hFirst with ⟨n, hFirst⟩
  rcases hSecond with ⟨m, hSecond⟩
  exact (hFirst.unique hSecond).2

/- Further along a chain there is less of it left. -/
theorem EndsIn.lt_of_transGen
    {n : Nat}
    (hEnds : EndsIn next n a s)
    (hReach :
      Relation.TransGen (fun c d => next c = some d) a b) :
    ∃ m < n, EndsIn next m b s := by
  induction hReach using Relation.TransGen.head_induction_on
      generalizing n with
  | single hNext =>
      cases hEnds with
      | stop hNone =>
          rw [hNext] at hNone
          cases hNone
      | go hStep hRest =>
          rw [hNext, Option.some.injEq] at hStep
          subst hStep
          exact ⟨_, Nat.lt_succ_self _, hRest⟩
  | head hNext hReach ih =>
      cases hEnds with
      | stop hNone =>
          rw [hNext] at hNone
          cases hNone
      | go hStep hRest =>
          rw [hNext, Option.some.injEq] at hStep
          subst hStep
          rcases ih hRest with ⟨m, hLt, hEnd⟩
          exact ⟨m, Nat.lt_succ_of_lt hLt, hEnd⟩

/- A chain that ends does not loop. -/
theorem Ends.no_loop
    (hEnds : Ends next a s) :
    ¬ Relation.TransGen (fun c d => next c = some d) a a := by
  intro hLoop
  rcases hEnds with ⟨n, hEnds⟩
  rcases hEnds.lt_of_transGen hLoop with ⟨m, hLt, hAgain⟩
  have hSame := (hEnds.unique hAgain).1
  omega

theorem Ends.ne_of_next
    (hEnds : Ends next a s)
    (hNext : next a = some b) :
    b ≠ a := by
  rintro rfl
  exact hEnds.no_loop (Relation.TransGen.single hNext)

end Pointers

------------------------------------------------------------
-- The Bounded Walk
------------------------------------------------------------

namespace Pointers

variable {κ : Type} {next : κ → Option κ} {a s : κ}

/- The end of a chain, looked for in at most so many nodes. -/
def follow
    (next : κ → Option κ) : Nat → κ → Option κ
| 0, _ => none
| n + 1, a =>
    match next a with
    | some b => follow next n b
    | none => some a

theorem ends_of_follow
    {n : Nat}
    (hFollow : follow next n a = some s) :
    Ends next a s := by
  induction n generalizing a with
  | zero => cases hFollow
  | succ n ih =>
      rw [follow] at hFollow
      split at hFollow
      · rename_i b hNext
        exact Ends.go hNext (ih hFollow)
      · rename_i hNone
        rw [Option.some.injEq] at hFollow
        subst hFollow
        exact Ends.stop hNone

theorem EndsIn.follow_eq
    {n m : Nat}
    (hEnds : EndsIn next n a s)
    (hLt : n < m) :
    follow next m a = some s := by
  induction hEnds generalizing m with
  | stop hNone =>
      cases m with
      | zero => omega
      | succ m => rw [follow, hNone]
  | go hNext hRest ih =>
      cases m with
      | zero => omega
      | succ m =>
          rw [follow, hNext]
          exact ih (by omega)

/- The nodes a chain passes, each once. -/
theorem EndsIn.exists_path
    {n : Nat}
    (hEnds : EndsIn next n a s) :
    ∃ path : List κ,
      path.length = n ∧ path.Nodup ∧
        ∀ c ∈ path, next c ≠ none ∧
          ∃ k ≤ n, EndsIn next k c s := by
  induction hEnds with
  | stop hNone => exact ⟨[], rfl, List.nodup_nil, by simp⟩
  | go hNext hRest ih =>
      rename_i n a b s
      rcases ih with ⟨path, hLength, hNodup, hPath⟩
      refine ⟨a :: path, by simp [hLength], ?_, ?_⟩
      · refine List.nodup_cons.mpr ⟨?_, hNodup⟩
        intro hMem
        rcases (hPath a hMem).2 with ⟨k, hLe, hAgain⟩
        have hSame :=
          ((EndsIn.go hNext hRest).unique hAgain).1
        omega
      · intro c hMem
        rcases List.mem_cons.mp hMem with rfl | hTail
        · exact ⟨by rw [hNext]; exact Option.some_ne_none _,
            n + 1, Nat.le_refl _, EndsIn.go hNext hRest⟩
        · rcases hPath c hTail with ⟨hSome, k, hLe, hEnd⟩
          exact ⟨hSome, k, Nat.le_succ_of_le hLe, hEnd⟩

/- A walk of more nodes than there are pointers ends. -/
theorem follow_of_ends
    {nodes : List κ}
    {m : Nat}
    (hNodes : ∀ c, next c ≠ none → c ∈ nodes)
    (hEnds : Ends next a s)
    (hLt : nodes.length < m) :
    follow next m a = some s := by
  rcases hEnds with ⟨n, hEnds⟩
  rcases hEnds.exists_path with ⟨path, rfl, hNodup, hPath⟩
  have hSubset : path ⊆ nodes :=
    fun c hMem => hNodes c (hPath c hMem).1
  have hLe : path.length ≤ nodes.length :=
    (List.subperm_of_subset hNodup hSubset).length_le
  exact hEnds.follow_eq (by omega)

end Pointers

------------------------------------------------------------
-- Changes of the Pointers
------------------------------------------------------------

namespace Pointers

variable {κ : Type} {next : κ → Option κ} {a s x y : κ}

section Splice

variable [DecidableEq κ]

/- `x` taken out, its followers pointed where it pointed. -/
def splice
    (next : κ → Option κ)
    (x a : κ) : Option κ :=
  if a = x then none
  else if next a = some x then next x
  else next a

theorem Ends.splice_or
    {target : κ}
    (hTarget : next x = some target)
    (hEnds : Ends next a s) :
    (a ≠ x → Ends (splice next x) a s) ∧
      (a = x → Ends (splice next x) target s) := by
  rcases hEnds with ⟨n, hEnds⟩
  induction hEnds with
  | stop hNone =>
      refine ⟨?_, ?_⟩
      · intro hNe
        refine Ends.stop ?_
        unfold splice
        rw [if_neg hNe, hNone]
        simp
      · rintro rfl
        rw [hTarget] at hNone
        cases hNone
  | go hNext hRest ih =>
      rename_i n a b s
      refine ⟨?_, ?_⟩
      · intro hNe
        by_cases hMid : b = x
        · refine Ends.go ?_ (ih.2 hMid)
          unfold splice
          rw [if_neg hNe, if_pos (by rw [hNext, hMid]),
            hTarget]
        · refine Ends.go ?_ (ih.1 hMid)
          unfold splice
          rw [if_neg hNe, if_neg (by simp [hNext, hMid]),
            hNext]
      · rintro rfl
        have hSame : b = target := by
          rw [hNext, Option.some.injEq] at hTarget
          exact hTarget
        subst hSame
        have hWhole : Ends next a s :=
          ⟨_, EndsIn.go hNext hRest⟩
        exact ih.1 (hWhole.ne_of_next hNext)

/- A spliced chain keeps its end. -/
theorem ends_splice
    {target : κ}
    (hTarget : next x = some target)
    (hNe : a ≠ x)
    (hEnds : Ends next a s) :
    Ends (splice next x) a s :=
  (hEnds.splice_or hTarget).1 hNe

/- The chains that ended at `x` end where it is pointed. -/
theorem ends_update
    (hLast : next x = none)
    (hOther : next y = none)
    (hNe : y ≠ x)
    (hEnds : Ends next a s) :
    Ends (Function.update next x (some y)) a
      (if s = x then y else s) := by
  have hStop :
      Ends (Function.update next x (some y)) y y := by
    refine Ends.stop ?_
    rw [Function.update_of_ne hNe, hOther]
  rcases hEnds with ⟨n, hEnds⟩
  induction hEnds with
  | stop hNone =>
      rename_i a
      by_cases hHere : a = x
      · rw [if_pos hHere, hHere]
        refine Ends.go ?_ hStop
        rw [Function.update_self]
      · rw [if_neg hHere]
        refine Ends.stop ?_
        rw [Function.update_of_ne hHere, hNone]
  | go hNext hRest ih =>
      rename_i n a b s
      refine Ends.go ?_ ih
      have hHere : a ≠ x := by
        rintro rfl
        rw [hLast] at hNext
        cases hNext
      rw [Function.update_of_ne hHere, hNext]

end Splice

/- The pointers of some nodes alone. -/
def restrict
    (next : κ → Option κ)
    (keep : κ → Bool)
    (a : κ) : Option κ :=
  if keep a then next a else none

/- Fewer pointers make no loop. -/
theorem exists_ends_restrict
    (keep : κ → Bool)
    (hEnds : Ends next a s) :
    ∃ t, Ends (restrict next keep) a t := by
  rcases hEnds with ⟨n, hEnds⟩
  induction hEnds with
  | stop hNone =>
      refine ⟨_, Ends.stop ?_⟩
      unfold restrict
      rw [hNone]
      split <;> rfl
  | go hNext hRest ih =>
      rename_i n a b s
      by_cases hKeep : keep a = true
      · rcases ih with ⟨t, hEnd⟩
        refine ⟨t, Ends.go ?_ hEnd⟩
        rw [restrict, if_pos hKeep, hNext]
      · refine ⟨a, Ends.stop ?_⟩
        rw [restrict, if_neg hKeep]

/- A chain of the pointers kept is one of all of them. -/
theorem ends_of_restrict
    {keep : κ → Bool}
    (hEnds : Ends (restrict next keep) a s)
    (hLast : next s = none) :
    Ends next a s := by
  rcases hEnds with ⟨n, hEnds⟩
  induction hEnds with
  | stop hNone => exact Ends.stop hLast
  | go hNext hRest ih =>
      refine Ends.go ?_ (ih hLast)
      rw [restrict] at hNext
      split at hNext
      · exact hNext
      · cases hNext

end Pointers
