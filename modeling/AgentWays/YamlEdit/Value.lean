import AgentWays.Lib.IndexMap

/-
  YAML values as `serde_yaml` holds them, with scalar keys.

  A number is the text `Number::to_string` gives it. Two
  mappings are equal where they have the same keys and equal
  values at each, in whatever order; `Value.eq` is that
  equality.

  Key definitions include:
    * `YamlEdit.Key`
    * `YamlEdit.Value`
    * `YamlEdit.Value.eq`
    * `YamlEdit.Value.Distinct`
    * `YamlEdit.Value.asMapping`
    * `YamlEdit.Value.withMapping`

  Main declarations:
    * `YamlEdit.Value.eq_refl`
    * `YamlEdit.Value.eq_mapping`
-/

------------------------------------------------------------
-- Values
------------------------------------------------------------

namespace YamlEdit

/- A number by its text, which is no truth value's. -/
structure Number where
  text : String
  notBool : text ≠ "true" ∧ text ≠ "false"
deriving DecidableEq

/- A mapping's key: a text, a truth value or a number. -/
inductive Key where
| string (s : String)
| bool (b : Bool)
| number (n : Number)
deriving DecidableEq

/- `key_string`, which names a key by its text. -/
def Key.text : Key → String
| .string s => s
| .bool b => if b then "true" else "false"
| .number n => n.text

def Key.isString : Key → Bool
| .string _ => true
| _ => false

/- Keys that are no strings are told apart by their texts. -/
theorem Key.eq_of_text
    {k k' : Key}
    (hK : k.isString = false)
    (hK' : k'.isString = false)
    (hText : k.text = k'.text) :
    k = k' := by
  have hBool :
      ∀ (b : Bool) (n : Number),
        n.text ≠ Key.text (.bool b) := by
    intro b n
    cases b with
    | true => exact n.notBool.1
    | false => exact n.notBool.2
  cases k with
  | string s => cases hK
  | bool b =>
      cases k' with
      | string s => cases hK'
      | bool b' => cases b <;> cases b' <;> simp_all [Key.text]
      | number n => exact absurd hText.symm (hBool b n)
  | number n =>
      cases k' with
      | string s => cases hK'
      | bool b => exact absurd hText (hBool b n)
      | number n' =>
          rcases n with ⟨t, h⟩
          rcases n' with ⟨t', h'⟩
          have hSame : t = t' := hText
          subst hSame
          rfl

inductive Value where
| null
| bool (b : Bool)
| number (n : Number)
| string (s : String)
| sequence (items : List Value)
| mapping (entries : List (Key × Value))
| tagged (tag : String) (value : Value)

abbrev Mapping := List (Key × Value)

namespace Value

mutual

/- The equality of `serde_yaml::Value`. -/
def eq : Value → Value → Bool
| .null, .null => true
| .bool a, .bool b => a == b
| .number a, .number b => decide (a = b)
| .string a, .string b => a == b
| .sequence xs, .sequence ys => eqItems xs ys
| .mapping m, .mapping n =>
    m.length == n.length && eqEntries m n
| .tagged s v, .tagged t w => s == t && eq v w
| _, _ => false

def eqItems : List Value → List Value → Bool
| [], [] => true
| x :: xs, y :: ys => eq x y && eqItems xs ys
| _, _ => false

/- Each entry's value is equal to the other's at its key. -/
def eqEntries : List (Key × Value) → Mapping → Bool
| [], _ => true
| (k, v) :: rest, n =>
    (match IndexMap.find k n with
    | some w => eq v w
    | none => false) && eqEntries rest n

end

/- Every mapping of the value has distinct keys. -/
inductive Distinct : Value → Prop
| null : Distinct .null
| bool (b : Bool) : Distinct (.bool b)
| number (n : Number) : Distinct (.number n)
| string (s : String) : Distinct (.string s)
| sequence
    {items : List Value}
    (hItems : ∀ v ∈ items, Distinct v) :
    Distinct (.sequence items)
| mapping
    {m : Mapping}
    (hKeys : IndexMap.Distinct m)
    (hEntries : ∀ e ∈ m, Distinct e.2) :
    Distinct (.mapping m)
| tagged
    {tag : String}
    {v : Value}
    (hValue : Distinct v) :
    Distinct (.tagged tag v)

/- `Value::as_mapping`, which reads through tags. -/
def asMapping : Value → Option Mapping
| .mapping m => some m
| .tagged _ v => v.asMapping
| _ => none

/- The value with its mapping replaced, or made one. -/
def withMapping
    (m : Mapping) : Value → Value
| .tagged tag v =>
    if v.asMapping.isSome then .tagged tag (v.withMapping m)
    else .mapping m
| _ => .mapping m

end Value

end YamlEdit

------------------------------------------------------------
-- Equal Values
------------------------------------------------------------

namespace YamlEdit

namespace Value

theorem eqEntries_iff
    {m n : Mapping} :
    eqEntries m n = true ↔
      ∀ e ∈ m, ∃ w,
        IndexMap.find e.1 n = some w ∧ eq e.2 w = true := by
  induction m with
  | nil => simp [eqEntries]
  | cons e rest ih =>
      rcases e with ⟨k, v⟩
      rw [eqEntries, Bool.and_eq_true, ih, List.forall_mem_cons]
      apply and_congr_left'
      cases IndexMap.find k n with
      | none => simp
      | some w => simp

theorem eqItems_refl
    {items : List Value}
    (hItems : ∀ v ∈ items, eq v v = true) :
    eqItems items items = true := by
  induction items with
  | nil => rfl
  | cons v rest ih =>
      rw [eqItems, Bool.and_eq_true]
      exact
        ⟨hItems v List.mem_cons_self,
          ih (fun w hMem =>
            hItems w (List.mem_cons_of_mem v hMem))⟩

/- A value is equal to itself, its keys being distinct. -/
theorem eq_refl
    {v : Value}
    (hDistinct : Distinct v) :
    eq v v = true := by
  induction hDistinct with
  | null => rfl
  | bool b => simp [eq]
  | number n => simp [eq]
  | string s => simp [eq]
  | sequence _ ih =>
      rw [eq]
      exact eqItems_refl ih
  | mapping hKeys _ ih =>
      rename_i m
      rw [eq, Bool.and_eq_true]
      refine ⟨by simp, eqEntries_iff.mpr ?_⟩
      intro e hMem
      exact
        ⟨e.2, IndexMap.find_of_mem hKeys hMem, ih e hMem⟩
  | tagged _ ih => simp [eq, ih]

/- Mappings with the same keys and equal values are equal. -/
theorem eq_mapping
    {m n : Mapping}
    (hM : IndexMap.Distinct m)
    (hN : IndexMap.Distinct n)
    (hKeys :
      ∀ k, k ∈ IndexMap.keys m ↔ k ∈ IndexMap.keys n)
    (hValues :
      ∀ k v w,
        IndexMap.find k m = some v →
          IndexMap.find k n = some w → eq v w = true) :
    eq (.mapping m) (.mapping n) = true := by
  rw [eq, Bool.and_eq_true]
  refine
    ⟨by simpa using IndexMap.length_eq_of_keys hM hN hKeys,
      eqEntries_iff.mpr ?_⟩
  intro e hMem
  have hKey : e.1 ∈ IndexMap.keys n :=
    (hKeys e.1).mp (List.mem_map_of_mem hMem)
  rw [IndexMap.mem_keys_iff_find] at hKey
  rcases Option.isSome_iff_exists.mp hKey with ⟨w, hFind⟩
  exact
    ⟨w, hFind,
      hValues e.1 e.2 w (IndexMap.find_of_mem hM hMem)
        hFind⟩

@[simp] theorem asMapping_withMapping
    (m : Mapping)
    (v : Value) :
    (v.withMapping m).asMapping = some m := by
  induction v using Value.asMapping.induct with
  | case1 _ => rfl
  | case2 tag v ih =>
      unfold withMapping
      split
      · exact ih
      · rfl
  | case3 v _ _ => cases v <;> simp_all [withMapping, asMapping]

/- A value whose mapping is put back is the value. -/
theorem withMapping_self
    {m : Mapping}
    {v : Value}
    (hMapping : v.asMapping = some m) :
    v.withMapping m = v := by
  induction v using Value.asMapping.induct with
  | case1 _ =>
      cases hMapping
      rfl
  | case2 tag v ih =>
      have hInner : v.asMapping = some m := hMapping
      unfold withMapping
      rw [if_pos (by simp [hInner]), ih hInner]
  | case3 v _ _ => cases v <;> simp_all [asMapping]

theorem withMapping_withMapping
    (m n : Mapping)
    (v : Value) :
    (v.withMapping m).withMapping n = v.withMapping n := by
  induction v using Value.asMapping.induct with
  | case1 _ => rfl
  | case2 tag v ih =>
      by_cases hInner : v.asMapping.isSome = true
      · simp only [withMapping, hInner, if_true,
          asMapping_withMapping, Option.isSome_some, ih]
      · simp only [withMapping, hInner, Bool.false_eq_true,
          if_false]
  | case3 v _ _ => cases v <;> simp_all [withMapping]

end Value

end YamlEdit
