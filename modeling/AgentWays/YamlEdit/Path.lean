import AgentWays.YamlEdit.Value

/-
  Values along a path of key texts: read, set and removed.

  A segment names the text key, or else a scalar key written
  the same way. A value set at a path is made of mappings
  down to it; a removal prunes the mappings it leaves empty.

  Key definitions include:
    * `YamlEdit.keyOf`
    * `YamlEdit.valueAt`
    * `YamlEdit.vSet`
    * `YamlEdit.vRemove`

  Main declarations:
    * `YamlEdit.valueAt_vSet`
    * `YamlEdit.valueAt_vSet_of_apart`
    * `YamlEdit.vSet_concat`
    * `YamlEdit.vSet_vSet`
    * `YamlEdit.vSet_self`
-/

------------------------------------------------------------
-- Values Along A Path
------------------------------------------------------------

namespace YamlEdit

/- The key of `m` that a path segment names. -/
def keyOf
    (m : Mapping)
    (seg : String) : Option Key :=
  if Key.string seg ∈ IndexMap.keys m then some (.string seg)
  else
    (IndexMap.keys m).find?
      (fun k => !k.isString && decide (k.text = seg))

/- The key a segment names, or the text key it would make. -/
def keyFor
    (m : Mapping)
    (seg : String) : Key :=
  (keyOf m seg).getD (.string seg)

def valueAt : Value → List String → Option Value
| v, [] => some v
| v, seg :: rest =>
    match v.asMapping with
    | none => none
    | some m =>
        match keyOf m seg with
        | none => none
        | some k =>
            match IndexMap.find k m with
            | none => none
            | some child => valueAt child rest

/- The mapping below a key, made where there is none. -/
def childFor
    (m : Mapping)
    (k : Key) : Value :=
  match IndexMap.find k m with
  | some child =>
      if child.asMapping.isSome then child else .mapping []
  | none => .mapping []

/- `v_set`, which is given no empty path. -/
def vSet : Value → List String → Value → Value
| _, [], v => v
| cur, [seg], v =>
    let m := cur.asMapping.getD []
    cur.withMapping (IndexMap.insert (keyFor m seg) v m)
| cur, seg :: next :: rest, v =>
    let m := cur.asMapping.getD []
    let k := keyFor m seg
    cur.withMapping
      (IndexMap.insert k (vSet (childFor m k) (next :: rest) v)
        m)

/- The value with `path` removed, and whether that left it empty. -/
def vRemoveGo : Value → List String → Value × Bool
| cur, [] => (cur, false)
| cur, seg :: rest =>
    match cur.asMapping with
    | none => (cur, false)
    | some m =>
        match keyOf m seg with
        | none => (cur, m.isEmpty)
        | some k =>
            let left : Mapping :=
              if rest.isEmpty then IndexMap.swapRemove k m
              else
                match IndexMap.find k m with
                | none => m
                | some child =>
                    let below := vRemoveGo child rest
                    if below.2 then IndexMap.swapRemove k m
                    else IndexMap.insert k below.1 m
            (cur.withMapping left, left.isEmpty)

/- Remove `path`, then every ancestor left empty. -/
def vRemove
    (root : Value)
    (path : List String) : Value :=
  (vRemoveGo root path).1

end YamlEdit

------------------------------------------------------------
-- Keys And Segments
------------------------------------------------------------

namespace YamlEdit

variable {m : Mapping} {seg seg' : String} {k : Key}

theorem text_of_keyOf
    (hKey : keyOf m seg = some k) :
    k.text = seg := by
  unfold keyOf at hKey
  split at hKey
  · cases hKey
    rfl
  · have hFound := List.find?_some hKey
    simp only [Bool.and_eq_true, decide_eq_true_eq] at hFound
    exact hFound.2

theorem mem_keys_of_keyOf
    (hKey : keyOf m seg = some k) :
    k ∈ IndexMap.keys m := by
  unfold keyOf at hKey
  split at hKey
  · rename_i hMem
    cases hKey
    exact hMem
  · exact List.mem_of_find?_eq_some hKey

/- A segment names no key where none has its text. -/
theorem keyOf_eq_none_iff :
    keyOf m seg = none ↔
      ∀ k ∈ IndexMap.keys m, k.text ≠ seg := by
  unfold keyOf
  split
  · rename_i hMem
    simp only [reduceCtorEq, false_iff, not_forall]
    exact ⟨.string seg, hMem, fun hNot => hNot rfl⟩
  · rename_i hNot
    rw [List.find?_eq_none]
    constructor
    · intro hNone k hMem hText
      have hFalse := hNone k hMem
      cases k with
      | string s =>
          apply hNot
          rw [← hText]
          exact hMem
      | bool b => simp [Key.isString, hText] at hFalse
      | number n => simp [Key.isString, hText] at hFalse
    · intro hNone k hMem
      simp [hNone k hMem]

theorem keyOf_congr
    {m' : Mapping}
    (hKeys : IndexMap.keys m' = IndexMap.keys m)
    (seg : String) :
    keyOf m' seg = keyOf m seg := by
  unfold keyOf
  rw [hKeys]

theorem text_keyFor
    (m : Mapping)
    (seg : String) :
    (keyFor m seg).text = seg := by
  unfold keyFor
  cases hKey : keyOf m seg with
  | none => rfl
  | some k => exact text_of_keyOf hKey

theorem keys_insert_keyFor
    (m : Mapping)
    (seg : String)
    (v : Value) :
    IndexMap.keys (IndexMap.insert (keyFor m seg) v m) =
      if (keyOf m seg).isSome then IndexMap.keys m
      else IndexMap.keys m ++ [.string seg] := by
  rw [IndexMap.keys_insert]
  unfold keyFor
  cases hKey : keyOf m seg with
  | none =>
      have hNot : Key.string seg ∉ IndexMap.keys m := by
        intro hMem
        exact keyOf_eq_none_iff.mp hKey _ hMem rfl
      simp [hNot]
  | some k => simp [mem_keys_of_keyOf hKey]

/- The key a value is put at is the one the segment names. -/
theorem keyOf_insert_keyFor
    (m : Mapping)
    (seg : String)
    (v : Value) :
    keyOf (IndexMap.insert (keyFor m seg) v m) seg =
      some (keyFor m seg) := by
  have hKeys := keys_insert_keyFor m seg v
  cases hKey : keyOf m seg with
  | none =>
      rw [hKey] at hKeys
      unfold keyOf
      rw [hKeys]
      simp [keyFor, hKey]
  | some k =>
      rw [hKey] at hKeys
      rw [keyOf_congr hKeys seg, hKey]
      simp [keyFor, hKey]

@[simp] theorem keyFor_insert_keyFor
    (m : Mapping)
    (seg : String)
    (v : Value) :
    keyFor (IndexMap.insert (keyFor m seg) v m) seg =
      keyFor m seg := by
  unfold keyFor
  rw [show
    keyOf
        (IndexMap.insert ((keyOf m seg).getD (.string seg)) v
          m) seg =
      some ((keyOf m seg).getD (.string seg)) from
    keyOf_insert_keyFor m seg v]
  rfl

/- A value put at one segment renames no other. -/
theorem keyOf_insert_of_ne
    (hOther : seg ≠ seg')
    (m : Mapping)
    (v : Value) :
    keyOf (IndexMap.insert (keyFor m seg) v m) seg' =
      keyOf m seg' := by
  have hKeys := keys_insert_keyFor m seg v
  cases hKey : keyOf m seg with
  | some k =>
      rw [hKey] at hKeys
      exact keyOf_congr hKeys seg'
  | none =>
      rw [hKey] at hKeys
      simp only [Option.isSome_none, Bool.false_eq_true,
        if_false] at hKeys
      unfold keyOf
      rw [hKeys]
      have hMem :
          Key.string seg' ∈
              IndexMap.keys m ++ [Key.string seg] ↔
            Key.string seg' ∈ IndexMap.keys m := by
        simp [Ne.symm hOther]
      simp only [hMem, List.find?_append]
      simp [Key.isString]

theorem find_insert_keyOf_of_ne
    (hOther : seg ≠ seg')
    (hKey : keyOf m seg' = some k)
    (v : Value) :
    IndexMap.find k (IndexMap.insert (keyFor m seg) v m) =
      IndexMap.find k m := by
  apply IndexMap.find_insert_of_ne
  intro hSame
  apply hOther
  rw [← text_keyFor m seg, hSame, text_of_keyOf hKey]

end YamlEdit

------------------------------------------------------------
-- A Value Set At A Path
------------------------------------------------------------

namespace YamlEdit

variable {v w : Value} {m : Mapping} {k : Key}
variable {seg : String} {p q rest : List String}

theorem valueAt_cons
    (v : Value)
    (seg : String)
    (rest : List String) :
    valueAt v (seg :: rest) =
      (v.asMapping.bind (fun m =>
        (keyOf m seg).bind (fun k =>
          IndexMap.find k m))).bind
        (fun child => valueAt child rest) := by
  rw [valueAt]
  cases v.asMapping with
  | none => rfl
  | some m =>
      simp only [Option.bind_some]
      cases keyOf m seg with
      | none => rfl
      | some k =>
          simp only [Option.bind_some]
          cases IndexMap.find k m with
          | none => rfl
          | some child => rfl

theorem valueAt_append
    (v : Value)
    (p q : List String) :
    valueAt v (p ++ q) =
      (valueAt v p).bind (fun w => valueAt w q) := by
  induction p generalizing v with
  | nil => rfl
  | cons seg rest ih =>
      rw [List.cons_append, valueAt_cons, valueAt_cons]
      simp only [ih, Option.bind_assoc]

/- Below a value that is no mapping there is nothing. -/
theorem valueAt_eq_none_of_not_mapping
    (hNone : v.asMapping = none)
    (hPath : p ≠ []) :
    valueAt v p = none := by
  cases p with
  | nil => exact absurd rfl hPath
  | cons seg rest => rw [valueAt_cons, hNone]; rfl

/- The steps of a set, the last one among them. -/
theorem vSet_cons
    (cur : Value)
    (seg : String)
    (rest : List String)
    (v : Value) :
    vSet cur (seg :: rest) v =
      cur.withMapping
        (IndexMap.insert
          (keyFor (cur.asMapping.getD []) seg)
          (vSet
            (childFor (cur.asMapping.getD [])
              (keyFor (cur.asMapping.getD []) seg))
            rest v)
          (cur.asMapping.getD [])) := by
  cases rest with
  | nil => rfl
  | cons next rest => rfl

theorem valueAt_vSet
    (cur : Value)
    (p : List String)
    (v : Value) :
    valueAt (vSet cur p v) p = some v := by
  induction p generalizing cur with
  | nil => rfl
  | cons seg rest ih =>
      rw [vSet_cons, valueAt_cons,
        Value.asMapping_withMapping]
      simp only [Option.bind_some, keyOf_insert_keyFor,
        IndexMap.find_insert_self]
      exact ih _

/- Neither path continues the other. -/
def Apart
    (p q : List String) : Prop :=
  ¬ p <+: q ∧ ¬ q <+: p

theorem Apart.ne_nil
    (hApart : Apart p q) :
    p ≠ [] ∧ q ≠ [] := by
  constructor
  · rintro rfl
    exact hApart.1 List.nil_prefix
  · rintro rfl
    exact hApart.2 List.nil_prefix

theorem apart_cons_iff :
    Apart (seg :: p) (seg :: q) ↔ Apart p q := by
  unfold Apart
  rw [List.cons_prefix_cons, List.cons_prefix_cons]
  simp

/- Below a child the set mapping reads as the old one. -/
theorem valueAt_childFor
    (m : Mapping)
    (k : Key)
    (hPath : q ≠ []) :
    valueAt (childFor m k) q =
      (IndexMap.find k m).bind
        (fun child => valueAt child q) := by
  have hEmpty : valueAt (.mapping []) q = none := by
    cases q with
    | nil => exact absurd rfl hPath
    | cons seg rest => rfl
  unfold childFor
  cases hFind : IndexMap.find k m with
  | none => exact hEmpty
  | some child =>
      dsimp only
      split
      · rfl
      · rename_i hNot
        rw [hEmpty, Option.bind_some]
        exact
          (valueAt_eq_none_of_not_mapping
            (by simpa using hNot) hPath).symm

theorem valueAt_vSet_of_apart
    (cur : Value)
    (v : Value)
    (hApart : Apart p q) :
    valueAt (vSet cur p v) q = valueAt cur q := by
  induction p generalizing cur q with
  | nil => exact absurd rfl hApart.ne_nil.1
  | cons seg rest ih =>
      cases q with
      | nil => exact absurd rfl hApart.ne_nil.2
      | cons seg' rest' =>
          have hOld :
              valueAt cur (seg' :: rest') =
                (keyOf (cur.asMapping.getD []) seg').bind
                  (fun k =>
                    (IndexMap.find k
                      (cur.asMapping.getD [])).bind
                      (fun child => valueAt child rest')) := by
            rw [valueAt_cons]
            cases cur.asMapping with
            | none => rfl
            | some m =>
                simp only [Option.bind_some, Option.getD_some]
                rw [Option.bind_assoc]
          rw [vSet_cons, hOld, valueAt_cons,
            Value.asMapping_withMapping, Option.bind_some]
          by_cases hSame : seg = seg'
          · subst hSame
            have hRest := apart_cons_iff.mp hApart
            simp only [keyOf_insert_keyFor, Option.bind_some,
              IndexMap.find_insert_self]
            rw [ih _ hRest,
              valueAt_childFor _ _ hRest.ne_nil.2]
            cases hKey : keyOf (cur.asMapping.getD []) seg with
            | some k => simp [keyFor, hKey]
            | none =>
                have hNew :
                    IndexMap.find (Key.string seg)
                      (cur.asMapping.getD []) = none := by
                  rw [IndexMap.find_eq_none_iff]
                  intro hMem
                  exact
                    keyOf_eq_none_iff.mp hKey _ hMem rfl
                simp [keyFor, hKey, hNew]
          · rw [keyOf_insert_of_ne hSame, Option.bind_assoc]
            apply Option.bind_congr
            intro k hKey
            rw [find_insert_keyOf_of_ne hSame hKey]

/- A set below a mapping is a set of the mapping. -/
theorem vSet_concat
    {cur : Value}
    (hAt : valueAt cur p = some w)
    (hMapping : w.asMapping = some m)
    (seg : String)
    (v : Value) :
    vSet cur (p ++ [seg]) v =
      vSet cur p
        (w.withMapping
          (IndexMap.insert (keyFor m seg) v m)) := by
  induction p generalizing cur with
  | nil =>
      cases hAt
      rw [List.nil_append, vSet_cons, hMapping]
      rfl
  | cons next rest ih =>
      rw [List.cons_append, vSet_cons, vSet_cons]
      rw [valueAt_cons] at hAt
      cases hCur : cur.asMapping with
      | none => simp [hCur] at hAt
      | some m' =>
          rw [hCur] at hAt
          simp only [Option.bind_some, Option.getD_some]
            at hAt ⊢
          cases hKey : keyOf m' next with
          | none => simp [hKey] at hAt
          | some k =>
              rw [hKey, Option.bind_some] at hAt
              cases hFind : IndexMap.find k m' with
              | none => simp [hFind] at hAt
              | some child =>
                  rw [hFind, Option.bind_some] at hAt
                  have hChild :
                      childFor m' (keyFor m' next) = child := by
                    have hIs : child.asMapping.isSome = true := by
                      cases rest with
                      | nil =>
                          cases hAt
                          simp [hMapping]
                      | cons s r =>
                          cases hC : child.asMapping with
                          | some _ => rfl
                          | none =>
                              rw [valueAt_eq_none_of_not_mapping
                                hC (by simp)] at hAt
                              cases hAt
                    simp [childFor, keyFor, hKey, hFind, hIs]
                  rw [hChild, ih hAt]

/- The last value set at a path is the one that stays. -/
theorem vSet_vSet
    (cur : Value)
    (p : List String)
    (v w : Value) :
    vSet (vSet cur p v) p w = vSet cur p w := by
  induction p generalizing cur with
  | nil => rfl
  | cons seg rest ih =>
      rw [vSet_cons cur, vSet_cons, vSet_cons]
      simp only [Value.asMapping_withMapping,
        Option.getD_some, keyFor_insert_keyFor,
        Value.withMapping_withMapping,
        IndexMap.insert_insert]
      congr 2
      cases rest with
      | nil => rfl
      | cons next rest =>
          have hChild :
              ∀ m : Mapping, ∀ k x,
                IndexMap.find k m = some x →
                  x.asMapping.isSome = true →
                    childFor m k = x := by
            intro m k x hFind hIs
            simp [childFor, hFind, hIs]
          rw [hChild _ _ _ IndexMap.find_insert_self
            (by rw [vSet_cons]; simp)]
          exact ih _

theorem vSet_self
    {cur : Value}
    (hAt : valueAt cur p = some v) :
    vSet cur p v = cur := by
  induction p generalizing cur with
  | nil =>
      cases hAt
      rfl
  | cons seg rest ih =>
      rw [valueAt_cons] at hAt
      rw [vSet_cons]
      cases hCur : cur.asMapping with
      | none => simp [hCur] at hAt
      | some m =>
          rw [hCur, Option.bind_some] at hAt
          cases hKey : keyOf m seg with
          | none => simp [hKey] at hAt
          | some k =>
              rw [hKey, Option.bind_some] at hAt
              cases hFind : IndexMap.find k m with
              | none => simp [hFind] at hAt
              | some child =>
                  rw [hFind, Option.bind_some] at hAt
                  have hSet :
                      vSet (childFor m k) rest v = child := by
                    cases rest with
                    | nil =>
                        cases hAt
                        rfl
                    | cons s r =>
                        have hIs :
                            child.asMapping.isSome = true := by
                          cases hC : child.asMapping with
                          | some _ => rfl
                          | none =>
                              rw [valueAt_eq_none_of_not_mapping
                                hC (by simp)] at hAt
                              cases hAt
                        have hChild : childFor m k = child := by
                          simp [childFor, hFind, hIs]
                        rw [hChild]
                        exact ih hAt
                  simp only [Option.getD_some, keyFor, hKey]
                  rw [hSet, IndexMap.insert_of_find hFind,
                    Value.withMapping_self hCur]

end YamlEdit

------------------------------------------------------------
-- Distinct Keys Along A Path
------------------------------------------------------------

namespace YamlEdit

variable {v w : Value} {m : Mapping}
variable {p : List String}

theorem distinct_mapping_iff :
    (Value.mapping m).Distinct ↔
      IndexMap.Distinct m ∧ ∀ e ∈ m, e.2.Distinct := by
  constructor
  · intro hDistinct
    cases hDistinct with
    | mapping hKeys hEntries => exact ⟨hKeys, hEntries⟩
  · intro hBoth
    exact .mapping hBoth.1 hBoth.2

theorem distinct_asMapping
    (hDistinct : v.Distinct)
    (hMapping : v.asMapping = some m) :
    (Value.mapping m).Distinct := by
  induction hDistinct with
  | mapping hKeys hEntries =>
      cases hMapping
      exact .mapping hKeys hEntries
  | tagged _ ih => exact ih hMapping
  | null => cases hMapping
  | bool b => cases hMapping
  | number n => cases hMapping
  | string s => cases hMapping
  | sequence _ => cases hMapping

theorem distinct_withMapping
    (hDistinct : v.Distinct)
    (hMapping : (Value.mapping m).Distinct) :
    (v.withMapping m).Distinct := by
  induction hDistinct with
  | tagged _ ih =>
      rw [Value.withMapping]
      split
      · exact .tagged ih
      · exact hMapping
  | null => exact hMapping
  | bool b => exact hMapping
  | number n => exact hMapping
  | string s => exact hMapping
  | sequence _ => exact hMapping
  | mapping _ _ => exact hMapping

theorem distinct_insert
    (hMapping : (Value.mapping m).Distinct)
    (hValue : v.Distinct)
    (k : Key) :
    (Value.mapping (IndexMap.insert k v m)).Distinct := by
  rw [distinct_mapping_iff] at hMapping ⊢
  refine ⟨IndexMap.distinct_insert hMapping.1 k v, ?_⟩
  intro e hMem
  rcases IndexMap.mem_insert hMem with hNew | hOld
  · rw [hNew]
    exact hValue
  · exact hMapping.2 e hOld

theorem distinct_swapRemove
    (hMapping : (Value.mapping m).Distinct)
    (k : Key) :
    (Value.mapping (IndexMap.swapRemove k m)).Distinct := by
  rw [distinct_mapping_iff] at hMapping ⊢
  refine ⟨IndexMap.distinct_swapRemove hMapping.1 k, ?_⟩
  intro e hMem
  exact
    hMapping.2 e
      ((IndexMap.mem_swapRemove hMapping.1).mp hMem).1

theorem distinct_of_find
    (hMapping : (Value.mapping m).Distinct)
    {k : Key}
    (hFind : IndexMap.find k m = some v) :
    v.Distinct :=
  (distinct_mapping_iff.mp hMapping).2 (k, v)
    (IndexMap.mem_of_find hFind)

theorem distinct_empty :
    (Value.mapping []).Distinct :=
  distinct_mapping_iff.mpr ⟨List.nodup_nil, by simp⟩

theorem distinct_valueAt
    (hDistinct : v.Distinct)
    (hAt : valueAt v p = some w) :
    w.Distinct := by
  induction p generalizing v with
  | nil =>
      cases hAt
      exact hDistinct
  | cons seg rest ih =>
      rw [valueAt_cons] at hAt
      simp only [Option.bind_eq_some_iff] at hAt
      rcases hAt with
        ⟨child, ⟨m, hMapping, k, hKey, hFind⟩, hRest⟩
      exact
        ih
          (distinct_of_find
            (distinct_asMapping hDistinct hMapping) hFind)
          hRest

/- A value set with distinct keys leaves the keys distinct. -/
theorem distinct_vSet
    (hDistinct : v.Distinct)
    (hValue : w.Distinct)
    (p : List String) :
    (vSet v p w).Distinct := by
  induction p generalizing v with
  | nil => exact hValue
  | cons seg rest ih =>
      have hMapping :
          (Value.mapping (v.asMapping.getD [])).Distinct := by
        cases hOld : v.asMapping with
        | none => exact distinct_empty
        | some m => exact distinct_asMapping hDistinct hOld
      have hChild :
          (childFor (v.asMapping.getD [])
            (keyFor (v.asMapping.getD []) seg)).Distinct := by
        unfold childFor
        split
        · rename_i child hFind
          split
          · exact distinct_of_find hMapping hFind
          · exact distinct_empty
        · exact distinct_empty
      rw [vSet_cons]
      exact
        distinct_withMapping hDistinct
          (distinct_insert hMapping (ih hChild) _)

theorem vSet_root
    {cur : Value}
    (hCur : ∃ m, cur = .mapping m)
    (hValue : ∃ m, w = .mapping m)
    (p : List String) :
    ∃ m, vSet cur p w = .mapping m := by
  cases p with
  | nil => exact hValue
  | cons seg rest =>
      rcases hCur with ⟨m, rfl⟩
      rw [vSet_cons]
      exact ⟨_, rfl⟩

end YamlEdit
