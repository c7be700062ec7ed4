import AgentWays.Lib.KeyMap
import Mathlib.Data.String.Basic

/-
  JSON values as `serde_json` holds them.

  An object is a map: its keys are distinct, and two objects
  with the same fields are equal in whatever order these
  were written. A `Value` is a tree whose objects list their
  keys in increasing order, so Lean's equality is the
  equality of `serde_json::Value`.

  Key definitions include:
    * `Json.Number`
    * `Json.Tree`
    * `Json.Value`
    * `Json.Value.obj`, `Json.Value.array`, `Json.Value.str`
    * `Json.Value.asObject`
    * `Json.Value.asArray`
    * `Json.Value.asStr`
    * `Json.Value.get?`

  Main declarations:
    * `Json.Value.asObject_eq_some`
    * `Json.Value.asArray_eq_some`
    * `Json.Value.asStr_eq_some`
-/

------------------------------------------------------------
-- Trees
------------------------------------------------------------

namespace Json

/-
  A number: an integer of either sign, or a finite float,
  which compares by its exact value.
-/
inductive Number where
| posInt (n : Nat)
| negInt (n : Int)
| float (value : Rat)
deriving DecidableEq

/- A document, with its objects as lists of fields. -/
inductive Tree where
| null
| bool (b : Bool)
| num (n : Number)
| str (s : String)
| arr (items : List Tree)
| obj (fields : List (String × Tree))

mutual

/- Equality of trees, decided by structural recursion. -/
def Tree.decEq :
    (s t : Tree) → Decidable (s = t)
| .null, .null => isTrue rfl
| .bool a, .bool b =>
    decidable_of_iff (a = b) (by simp)
| .num a, .num b =>
    decidable_of_iff (a = b) (by simp)
| .str a, .str b =>
    decidable_of_iff (a = b) (by simp)
| .arr a, .arr b =>
    match Tree.decEqItems a b with
    | isTrue h => isTrue (by rw [h])
    | isFalse h => isFalse (by simpa using h)
| .obj a, .obj b =>
    match Tree.decEqFields a b with
    | isTrue h => isTrue (by rw [h])
    | isFalse h => isFalse (by simpa using h)
| .null, .bool _ | .null, .num _ | .null, .str _
| .null, .arr _ | .null, .obj _ => isFalse (by simp)
| .bool _, .null | .bool _, .num _ | .bool _, .str _
| .bool _, .arr _ | .bool _, .obj _ => isFalse (by simp)
| .num _, .null | .num _, .bool _ | .num _, .str _
| .num _, .arr _ | .num _, .obj _ => isFalse (by simp)
| .str _, .null | .str _, .bool _ | .str _, .num _
| .str _, .arr _ | .str _, .obj _ => isFalse (by simp)
| .arr _, .null | .arr _, .bool _ | .arr _, .num _
| .arr _, .str _ | .arr _, .obj _ => isFalse (by simp)
| .obj _, .null | .obj _, .bool _ | .obj _, .num _
| .obj _, .str _ | .obj _, .arr _ => isFalse (by simp)

def Tree.decEqItems :
    (xs ys : List Tree) → Decidable (xs = ys)
| [], [] => isTrue rfl
| x :: xs, y :: ys =>
    match Tree.decEq x y, Tree.decEqItems xs ys with
    | isTrue h, isTrue h' => isTrue (by rw [h, h'])
    | isFalse h, _ => isFalse (by simp [h])
    | _, isFalse h => isFalse (by simp [h])
| [], _ :: _ | _ :: _, [] => isFalse (by simp)

def Tree.decEqFields :
    (xs ys : List (String × Tree)) → Decidable (xs = ys)
| [], [] => isTrue rfl
| (k, x) :: xs, (k', y) :: ys =>
    match instDecidableEqString k k', Tree.decEq x y,
      Tree.decEqFields xs ys with
    | isTrue h, isTrue h', isTrue h'' =>
        isTrue (by rw [h, h', h''])
    | isFalse h, _, _ => isFalse (by simp [h])
    | _, isFalse h, _ => isFalse (by simp [h])
    | _, _, isFalse h => isFalse (by simp [h])
| [], _ :: _ | _ :: _, [] => isFalse (by simp)

end

instance : DecidableEq Tree :=
  Tree.decEq

/- Every object's keys increase. -/
inductive Tree.Canonical : Tree → Prop
| null : Canonical .null
| bool (b : Bool) : Canonical (.bool b)
| num (n : Number) : Canonical (.num n)
| str (s : String) : Canonical (.str s)
| arr
    {items : List Tree}
    (hItems : ∀ t ∈ items, Canonical t) :
    Canonical (.arr items)
| obj
    {fields : List (String × Tree)}
    (hKeys : KeyMap.Increasing fields)
    (hFields : ∀ e ∈ fields, Canonical e.2) :
    Canonical (.obj fields)

end Json

------------------------------------------------------------
-- Values
------------------------------------------------------------

namespace Json

/- A JSON value. -/
structure Value where
  tree : Tree
  canonical : tree.Canonical

namespace Value

instance : DecidableEq Value :=
  fun v w =>
    decidable_of_iff (v.tree = w.tree)
      (by cases v; cases w; simp)

theorem ext_tree
    {v w : Value}
    (hTree : v.tree = w.tree) :
    v = w := by
  cases v
  cases w
  simpa using hTree

def null : Value :=
  ⟨.null, .null⟩

def bool
    (b : Bool) : Value :=
  ⟨.bool b, .bool b⟩

def num
    (n : Number) : Value :=
  ⟨.num n, .num n⟩

def str
    (s : String) : Value :=
  ⟨.str s, .str s⟩

def array
    (items : List Value) : Value where
  tree := .arr (items.map Value.tree)
  canonical := by
    apply Tree.Canonical.arr
    intro t hMem
    rcases List.mem_map.mp hMem with ⟨v, -, rfl⟩
    exact v.canonical

def obj
    (m : KeyMap String Value) : Value where
  tree := .obj (m.entries.map (fun e => (e.1, e.2.tree)))
  canonical := by
    apply Tree.Canonical.obj
    · apply m.sorted.of_keys_eq
      simp
    · intro e hMem
      rcases List.mem_map.mp hMem with ⟨v, -, rfl⟩
      exact v.2.canonical

/- `Value::as_str`. -/
def asStr
    (v : Value) : Option String :=
  match v.tree with
  | .str s => some s
  | _ => none

/- `Value::as_array`. -/
def asArray : Value → Option (List Value)
| ⟨.arr items, hArr⟩ =>
    some
      (items.pmap Value.mk
        (by
          cases hArr with
          | arr hItems => exact hItems))
| _ => none

/- `Value::as_object`. -/
def asObject : Value → Option (KeyMap String Value)
| ⟨.obj fields, hObj⟩ =>
    some
      { entries :=
          fields.pmap (fun e hValue => (e.1, ⟨e.2, hValue⟩))
            (by
              cases hObj with
              | obj hKeys hFields => exact hFields)
        sorted := by
          cases hObj with
          | obj hKeys hFields =>
              apply hKeys.of_keys_eq
              simp [List.map_pmap] }
| _ => none

/- `Value::get` with a key. -/
def get?
    (v : Value)
    (key : String) : Option Value :=
  v.asObject.bind (fun m => m.get? key)

@[simp] theorem asStr_str
    (s : String) :
    (str s).asStr = some s := rfl

@[simp] theorem asArray_array
    (items : List Value) :
    (array items).asArray = some items := by
  simp only [array, asArray, List.pmap_map]
  exact congrArg some (List.pmap_eq_self.mpr (by simp))

@[simp] theorem asObject_obj
    (m : KeyMap String Value) :
    (obj m).asObject = some m := by
  rcases m with ⟨entries, hSorted⟩
  simp only [obj, asObject, List.pmap_map, Option.some.injEq,
    KeyMap.mk.injEq]
  exact List.pmap_eq_self.mpr (by simp)

theorem asStr_eq_some
    {v : Value}
    {s : String} :
    v.asStr = some s ↔ v = str s := by
  constructor
  · intro hStr
    rcases v with ⟨tree, hTree⟩
    cases tree <;> simp_all [asStr, str]
  · rintro rfl
    exact asStr_str s

theorem asArray_eq_some
    {v : Value}
    {items : List Value} :
    v.asArray = some items ↔ v = array items := by
  constructor
  · intro hArray
    rcases v with ⟨tree, hTree⟩
    cases tree with
    | arr trees =>
        simp only [asArray, Option.some.injEq] at hArray
        subst hArray
        apply ext_tree
        simp [array, List.map_pmap]
    | _ => simp [asArray] at hArray
  · rintro rfl
    exact asArray_array items

theorem asObject_eq_some
    {v : Value}
    {m : KeyMap String Value} :
    v.asObject = some m ↔ v = obj m := by
  constructor
  · intro hObject
    rcases v with ⟨tree, hTree⟩
    cases tree with
    | obj fields =>
        simp only [asObject, Option.some.injEq] at hObject
        subst hObject
        apply ext_tree
        simp [obj, List.map_pmap]
    | _ => simp [asObject] at hObject
  · rintro rfl
    exact asObject_obj m

@[simp] theorem get?_obj
    (m : KeyMap String Value)
    (key : String) :
    (obj m).get? key = m.get? key := by
  simp [get?]

end Value

end Json
