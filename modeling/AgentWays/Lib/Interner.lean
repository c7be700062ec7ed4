import Mathlib.Data.List.Forall2
import Mathlib.Data.List.Nodup

/-
  Values named by small numbers.

  A table gives each value it meets the next number and
  never renames one, so what was said in numbers still says
  the same when the table has grown.

  Key definitions include:
    * `Interner`
    * `Interner.id`
    * `Interner.ids`
    * `Interner.Says`

  Main declarations:
    * `Interner.says_id`
    * `Interner.says_ids`
    * `Interner.find_eq_some_iff`
    * `Interner.contains_of_find`
-/

------------------------------------------------------------
-- Tables
------------------------------------------------------------

/- A table of values, each in one place. -/
structure Interner (α : Type) where
  names : List α
  distinct : names.Nodup

namespace Interner

variable {α : Type}

def empty : Interner α where
  names := []
  distinct := List.nodup_nil

/- A number says a value. -/
def Says
    (n : Interner α)
    (i : Nat)
    (a : α) : Prop :=
  n.names[i]? = some a

/- A table that has kept the numbers of another. -/
def Extends
    (m n : Interner α) : Prop :=
  n.names <+: m.names

variable [DecidableEq α]

/- The number of a value, if it has one. -/
def find
    (n : Interner α)
    (a : α) : Option Nat :=
  n.names.idxOf? a

/- The number of a value, a new one if it had none. -/
def id
    (n : Interner α)
    (a : α) : Nat × Interner α :=
  if hOld : a ∈ n.names then (n.names.idxOf a, n)
  else
    (n.names.length,
      { names := n.names ++ [a]
        distinct := by
          rw [List.nodup_append]
          refine ⟨n.distinct, by simp, ?_⟩
          intro b hB c hC hSame
          rw [List.mem_singleton.mp hC] at hSame
          exact hOld (hSame ▸ hB) })

/- The numbers of a list of values. -/
def ids
    (n : Interner α) : List α → List Nat × Interner α
| [] => ([], n)
| a :: rest =>
    let (i, n) := n.id a
    let (is, n) := n.ids rest
    (i :: is, n)

end Interner

------------------------------------------------------------
-- What Numbers Say
------------------------------------------------------------

namespace Interner

variable {α : Type}
variable {m n : Interner α} {i j : Nat} {a b : α}

theorem extends_refl : n.Extends n := List.prefix_refl _

theorem Extends.trans
    {k : Interner α}
    (hLate : k.Extends m)
    (hEarly : m.Extends n) :
    k.Extends n :=
  List.IsPrefix.trans hEarly hLate

theorem Extends.said
    (hExtends : m.Extends n)
    (hSays : n.Says i a) :
    m.Says i a := by
  rcases hExtends with ⟨more, hNames⟩
  have hBound := (List.getElem?_eq_some_iff.mp hSays).1
  unfold Says
  rw [← hNames, List.getElem?_append_left hBound]
  exact hSays

theorem Extends.says_all
    {is : List Nat}
    {as : List α}
    (hExtends : m.Extends n)
    (hSays : List.Forall₂ n.Says is as) :
    List.Forall₂ m.Says is as :=
  hSays.imp (fun _ _ => hExtends.said)

/- A value has one number. -/
theorem Says.inj
    (hA : n.Says i a)
    (hB : n.Says j a) :
    i = j := by
  rcases List.getElem?_eq_some_iff.mp hA with ⟨hI, hAt⟩
  rcases List.getElem?_eq_some_iff.mp hB with ⟨hJ, hAt'⟩
  exact (n.distinct.getElem_inj_iff).mp (hAt.trans hAt'.symm)

/- A number says one value. -/
theorem Says.unique
    (hA : n.Says i a)
    (hB : n.Says i b) :
    a = b :=
  Option.some.inj (hA.symm.trans hB)

theorem says_iff
    (hA : n.Says i a)
    (hB : n.Says j b) :
    i = j ↔ a = b := by
  constructor
  · rintro rfl
    exact hA.unique hB
  · rintro rfl
    exact hA.inj hB

/- A list of numbers has the number of a value it says. -/
theorem contains_of_says
    {is : List Nat}
    {as : List α}
    (hSays : List.Forall₂ n.Says is as)
    (hA : n.Says i a) :
    i ∈ is ↔ a ∈ as := by
  induction hSays with
  | nil => simp
  | cons hHead hRest ih =>
      simp only [List.mem_cons, ih, says_iff hA hHead]

variable [DecidableEq α]

theorem says_idxOf
    (hMember : a ∈ n.names) :
    n.Says (n.names.idxOf a) a := by
  have hBound := List.idxOf_lt_length_of_mem hMember
  unfold Says
  rw [List.getElem?_eq_getElem hBound, List.getElem_idxOf]

theorem says_id : (n.id a).2.Says (n.id a).1 a := by
  unfold id
  split
  · rename_i hOld
    exact says_idxOf hOld
  · simp [Says]

theorem extends_id : (n.id a).2.Extends n := by
  unfold id
  split
  · exact extends_refl
  · exact List.prefix_append _ _

theorem extends_ids
    {l : List α} :
    (n.ids l).2.Extends n := by
  induction l generalizing n with
  | nil => exact extends_refl
  | cons a rest ih =>
      simp only [ids]
      exact ih.trans extends_id

theorem says_ids
    {l : List α} :
    List.Forall₂ (n.ids l).2.Says (n.ids l).1 l := by
  induction l generalizing n with
  | nil => exact List.Forall₂.nil
  | cons a rest ih =>
      simp only [ids]
      exact List.Forall₂.cons (extends_ids.said says_id) ih

theorem find_eq_some_iff :
    n.find a = some i ↔ n.Says i a := by
  unfold find Says
  constructor
  · intro hFind
    rcases List.idxOf?_eq_some_iff.mp hFind with
      ⟨hBound, hAt, -⟩
    have hSame : n.names[i] = a := by simpa using hAt
    rw [List.getElem?_eq_getElem hBound, hSame]
  · intro hSays
    rcases List.getElem?_eq_some_iff.mp hSays with
      ⟨hBound, hAt⟩
    apply List.idxOf?_eq_some_iff.mpr
    refine ⟨hBound, by simp [hAt], ?_⟩
    intro j hBefore hSame
    have hSame' : n.names[j] = a := by simpa using hSame
    have hPlace :=
      (n.distinct.getElem_inj_iff).mp
        (hSame'.trans hAt.symm)
    omega

/- Looking for a value among numbers finds what they say. -/
theorem contains_of_find
    {is : List Nat}
    {as : List α}
    (hSays : List.Forall₂ n.Says is as) :
    (n.find a).any (fun i => is.contains i) = true ↔
      a ∈ as := by
  cases hFind : n.find a with
  | none =>
      simp only [Option.any_none, Bool.false_eq_true,
        false_iff]
      intro hMember
      induction hSays with
      | nil => simp at hMember
      | cons hHead hRest ih =>
          rcases List.mem_cons.mp hMember with rfl | hTail
          · rw [find_eq_some_iff.mpr hHead] at hFind
            cases hFind
          · exact ih hTail
  | some i =>
      have hA := find_eq_some_iff.mp hFind
      simpa using contains_of_says hSays hA

end Interner
