import AgentWays.Lib.Forest
import AgentWays.Lib.Utf8
import Mathlib.Data.Char
import Mathlib.Data.Fin.Basic
import Mathlib.Data.List.Lex
import Mathlib.Data.Prod.Lex

/-
  The admission order of the ways that a scan lane matched.

  Hits form a forest by their ids. The forest is walked depth
  first, trees and children by the best rank under them and
  then by id.

  A score is an element of a linear order.

  Key definitions include:
    * `Scan.Hit`
    * `Scan.rank`
    * `Scan.isProperAncestor`
    * `Scan.orderHits`
-/

------------------------------------------------------------
-- Hits
------------------------------------------------------------

namespace Scan

/- A matched way; a score is none for an explicit trigger. -/
structure Hit (S T : Type) where
  id : List Char
  score : Option S
  specificity : Nat
  payload : T

/- What is read off the scores' type: `as f64` and `-inf`. -/
structure Scores (S : Type) where
  ofUsize : Nat → S
  negInfinity : S

variable {S T : Type}

/- Explicit triggers in a tier above the scored hits. -/
def rank
    (sc : Scores S)
    (h : Hit S T) : Nat × S :=
  match h.score with
  | none => (1, sc.ofUsize h.specificity)
  | some s => (0, s)

def rankCmp
    [LinearOrder S]
    (a b : Nat × S) : Ordering :=
  (compare a.1 b.1).then (compare a.2 b.2)

def compareIds
    (a b : List Char) : Ordering :=
  if a < b then .lt else if b < a then .gt else .eq

/- `id` goes on from `ancestor` with a slash. -/
def isProperAncestor
    (ancestor id : List Char) : Bool :=
  Utf8.size ancestor < Utf8.size id &&
    ancestor.isPrefixOf id &&
    (id.drop ancestor.length).head? = some '/'

end Scan

------------------------------------------------------------
-- The Order
------------------------------------------------------------

namespace Scan

/- The last of the greatest elements. -/
def maxBy
    {α : Type}
    (cmp : α → α → Ordering) : List α → Option α
| [] => none
| a :: rest =>
    some
      (rest.foldl (fun x y => if cmp x y = .gt then x else y) a)

/- A stable sort. -/
def sortBy
    {α : Type}
    (cmp : α → α → Ordering)
    (xs : List α) : List α :=
  xs.mergeSort (fun a b => cmp a b != .gt)

variable {S T : Type} (hits : List (Hit S T))

def idAt
    (i : Fin hits.length) : List Char :=
  (hits.get i).id

/- The nearest matched ancestor. -/
def parent
    (i : Fin hits.length) : Option (Fin hits.length) :=
  maxBy
    (fun j k =>
      compare (Utf8.size (idAt hits j)) (Utf8.size (idAt hits k)))
    ((List.finRange hits.length).filter
      (fun j => isProperAncestor (idAt hits j) (idAt hits i)))

variable [LinearOrder S] (sc : Scores S)

/- The best rank in a hit's subtree. -/
def best
    (i : Fin hits.length) : Nat × S :=
  (maxBy rankCmp
    (((List.finRange hits.length).filter
      (fun j =>
        j = i || isProperAncestor (idAt hits i) (idAt hits j))).map
      (fun j => rank sc (hits.get j)))).getD (0, sc.negInfinity)

def byRankThenId
    (a b : Fin hits.length) : Ordering :=
  (rankCmp (best hits sc b) (best hits sc a)).then
    (compareIds (idAt hits a) (idAt hits b))

def roots : List (Fin hits.length) :=
  sortBy (byRankThenId hits sc)
    ((List.finRange hits.length).filter
      (fun i => (parent hits i).isNone))

def children
    (i : Fin hits.length) : List (Fin hits.length) :=
  sortBy (byRankThenId hits sc)
    ((List.finRange hits.length).filter
      (fun j => parent hits j = some i))

/- The hits of an order, each taken from its slot once. -/
def takeSlots
    {α : Type} : List (Option α) → List Nat → List α
| _, [] => []
| slots, i :: order =>
    match slots.getD i none with
    | some h => h :: takeSlots (slots.set i none) order
    | none => takeSlots slots order

/-
  The hits in admission order. Each turn of the walk takes a
  hit off the stack, so there are as many as hits; none where
  the stack would outlast them.
-/
def orderHits : Option (List (Hit S T)) :=
  (Forest.walk (children hits sc) hits.length (roots hits sc)
    []).map
      (fun order =>
        takeSlots (hits.map some) (order.map Fin.val))

end Scan
