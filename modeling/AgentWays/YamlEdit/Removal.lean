import AgentWays.YamlEdit.Path

/-
  What the removal of a path does to a value.

  The key is taken out at the path's end, or at the highest
  ancestor that holds nothing but the path. Where its mapping
  has another key of the same text, that key is named by the
  segment from then on.

  Key definitions include:
    * `YamlEdit.onlyPath`
    * `YamlEdit.bare`
    * `YamlEdit.exposed`
    * `YamlEdit.Removed`

  Main declarations:
    * `YamlEdit.exists_removed`
    * `YamlEdit.bare_iff`
-/

------------------------------------------------------------
-- Keys After A Removal
------------------------------------------------------------

namespace YamlEdit

variable {m : Mapping} {seg seg' : String} {k : Key}

/- The text key goes before every other key of its text. -/
theorem keyOf_eq_some_iff :
    keyOf m seg = some k ↔
      k ∈ IndexMap.keys m ∧ k.text = seg ∧
        (k.isString = false →
          Key.string seg ∉ IndexMap.keys m) := by
  constructor
  · intro hKey
    refine
      ⟨mem_keys_of_keyOf hKey, text_of_keyOf hKey, ?_⟩
    intro hOther hMem
    unfold keyOf at hKey
    rw [if_pos hMem] at hKey
    cases hKey
    cases hOther
  · rintro ⟨hMem, hText, hFirst⟩
    cases hString : k.isString with
    | true =>
        cases k with
        | string s =>
            have hSame : s = seg := hText
            subst hSame
            unfold keyOf
            rw [if_pos hMem]
        | bool b => cases hString
        | number n => cases hString
    | false =>
        cases hKey : keyOf m seg with
        | none =>
            exact
              absurd hText (keyOf_eq_none_iff.mp hKey k hMem)
        | some k' =>
            have hText' := text_of_keyOf hKey
            unfold keyOf at hKey
            rw [if_neg (hFirst hString)] at hKey
            have hFound := List.find?_some hKey
            simp only [Bool.and_eq_true,
              Bool.not_eq_true', decide_eq_true_eq] at hFound
            rw [Key.eq_of_text hFound.1 hString
              (hFound.2.trans hText.symm)]

/- A removal renames no segment but the removed key's. -/
theorem keyOf_swapRemove_of_ne
    (hDistinct : IndexMap.Distinct m)
    (hOther : k.text ≠ seg') :
    keyOf (IndexMap.swapRemove k m) seg' = keyOf m seg' := by
  have hMem :
      ∀ k' : Key, k'.text = seg' →
        (k' ∈ IndexMap.keys (IndexMap.swapRemove k m) ↔
          k' ∈ IndexMap.keys m) := by
    intro k' hText
    rw [IndexMap.mem_keys_swapRemove hDistinct]
    constructor
    · exact And.left
    · intro hKeys
      refine ⟨hKeys, ?_⟩
      rintro rfl
      exact hOther hText
  cases hKey : keyOf m seg' with
  | none =>
      rw [keyOf_eq_none_iff] at hKey ⊢
      intro k' hKeys hText
      exact hKey k' ((hMem k' hText).mp hKeys) hText
  | some k' =>
      rw [keyOf_eq_some_iff] at hKey ⊢
      refine
        ⟨(hMem k' hKey.2.1).mpr hKey.1, hKey.2.1, ?_⟩
      intro hOther' hString
      exact hKey.2.2 hOther' ((hMem _ rfl).mp hString)

theorem find_swapRemove_of_keyOf
    (hDistinct : IndexMap.Distinct m)
    (hOther : k.text ≠ seg')
    {k' : Key}
    (hKey : keyOf m seg' = some k') :
    IndexMap.find k' (IndexMap.swapRemove k m) =
      IndexMap.find k' m := by
  rw [IndexMap.find_swapRemove hDistinct, if_neg]
  rintro rfl
  exact hOther (text_of_keyOf hKey)

end YamlEdit

------------------------------------------------------------
-- The Place Of A Removal
------------------------------------------------------------

namespace YamlEdit

/- Whether the value holds nothing but `path`. -/
def onlyPath : Value → List String → Bool
| _, [] => true
| v, seg :: rest =>
    match v.asMapping with
    | some [(k, child)] =>
        decide (k.text = seg) && onlyPath child rest
    | _ => false

/- Whether the value holds nothing at `path` or beside it. -/
def bare : Value → List String → Bool
| _, [] => false
| v, seg :: rest =>
    match v.asMapping with
    | none => true
    | some m =>
        (IndexMap.keys m).all (fun k => k.text = seg) &&
          match keyOf m seg with
          | none => true
          | some k =>
              match IndexMap.find k m with
              | none => true
              | some child => bare child rest

/- The value that `seg` names once the key `k` is removed. -/
def uncovered
    (m : Mapping)
    (k : Key)
    (seg : String) : Option Value :=
  (keyOf (IndexMap.swapRemove k m) seg).bind
    (fun k' => IndexMap.find k' (IndexMap.swapRemove k m))

/-
  The value that a removal of `path` brings to light under the
  removed key's text, and the path that is left below it.
-/
def exposed : Value → List String → Option (Value × List String)
| _, [] => none
| v, seg :: rest =>
    match v.asMapping with
    | none => none
    | some m =>
        match keyOf m seg with
        | none => none
        | some k =>
            match IndexMap.find k m with
            | none => none
            | some child =>
                if onlyPath child rest then
                  (uncovered m k seg).map (fun w => (w, rest))
                else exposed child rest

/- A removal takes nothing else to light. -/
def Veiled
    (v : Value)
    (path : List String) : Bool :=
  match exposed v path with
  | none => true
  | some (w, rest) => bare w rest

/- The key a removal takes out, below `above`. -/
structure Removed
    (v : Value)
    (above : List String)
    (seg : String)
    (below : List String)
    (w : Value)
    (m : Mapping)
    (k : Key)
    (child : Value) : Prop where
  at' : valueAt v above = some w
  mapping : w.asMapping = some m
  key : keyOf m seg = some k
  found : IndexMap.find k m = some child
  only : onlyPath child below = true

end YamlEdit

------------------------------------------------------------
-- Where The Value Is Changed
------------------------------------------------------------

namespace YamlEdit

variable {v w : Value} {m : Mapping} {k : Key}
variable {seg : String} {p q rest : List String}

/- What a path that is there passes through first. -/
theorem exists_of_valueAt_cons
    (hAt : valueAt v (seg :: rest) = some w) :
    ∃ m k child,
      v.asMapping = some m ∧ keyOf m seg = some k ∧
        IndexMap.find k m = some child ∧
        valueAt child rest = some w := by
  rw [valueAt_cons] at hAt
  simp only [Option.bind_eq_some_iff] at hAt
  rcases hAt with
    ⟨child, ⟨m, hMapping, k, hKey, hFind⟩, hRest⟩
  exact ⟨m, k, child, hMapping, hKey, hFind, hRest⟩

theorem onlyPath_cons
    {child : Value}
    (hMapping : v.asMapping = some m)
    (hKey : keyOf m seg = some k)
    (hFind : IndexMap.find k m = some child) :
    onlyPath v (seg :: rest) =
      ((IndexMap.swapRemove k m).isEmpty &&
        onlyPath child rest) := by
  have hNil :=
    IndexMap.swapRemove_eq_nil_iff (mem_keys_of_keyOf hKey)
  rw [onlyPath, hMapping]
  cases m with
  | nil => cases hFind
  | cons e others =>
      rcases e with ⟨k', child'⟩
      cases others with
      | nil =>
          have hSame : k = k' := by
            simpa [IndexMap.keys] using mem_keys_of_keyOf hKey
          subst hSame
          have hChild : child' = child := by
            simpa [IndexMap.find] using hFind
          simp [text_of_keyOf hKey, IndexMap.swapRemove,
            hChild]
      | cons e' others =>
          have hNot :
              IndexMap.swapRemove k ((k', child') :: e' :: others)
                ≠ [] := by
            intro hEmpty
            rcases hNil.mp hEmpty with ⟨x, hSingle⟩
            cases hSingle
          simp [hNot]

/- A removal leaves a value empty where it held nothing else. -/
theorem vRemoveGo_snd
    (hPath : p ≠ [])
    (hAt : valueAt v p = some w) :
    (vRemoveGo v p).2 = onlyPath v p := by
  induction p generalizing v with
  | nil => exact absurd rfl hPath
  | cons seg rest ih =>
      rcases exists_of_valueAt_cons hAt with
        ⟨m, k, child, hMapping, hKey, hFind, hRest⟩
      rw [onlyPath_cons hMapping hKey hFind, vRemoveGo]
      simp only [hMapping, hKey, hFind]
      cases rest with
      | nil => simp [onlyPath]
      | cons next rest =>
          simp only [List.isEmpty_cons, Bool.false_eq_true,
            if_false, ih (by simp) hRest]
          split
          · rename_i hOnly
            rw [hOnly, Bool.and_true]
          · rename_i hNot
            simp [hNot, IndexMap.insert_ne_nil]

/- A removal changes one mapping, found along the path. -/
theorem exists_removed
    (hPath : p ≠ [])
    (hAt : valueAt v p = some w) :
    ∃ above seg below u m k child,
      p = above ++ seg :: below ∧
        Removed v above seg below u m k child ∧
        vRemove v p =
          vSet v above
            (u.withMapping (IndexMap.swapRemove k m)) ∧
        exposed v p =
          (uncovered m k seg).map (fun x => (x, below)) := by
  unfold vRemove
  induction p generalizing v with
  | nil => exact absurd rfl hPath
  | cons seg rest ih =>
      rcases exists_of_valueAt_cons hAt with
        ⟨m, k, child, hMapping, hKey, hFind, hRest⟩
      cases hOnly : onlyPath child rest with
      | true =>
          refine
            ⟨[], seg, rest, v, m, k, child, rfl,
              ⟨rfl, hMapping, hKey, hFind, hOnly⟩, ?_, ?_⟩
          · rw [vRemoveGo]
            simp only [hMapping, hKey, hFind]
            cases rest with
            | nil => rfl
            | cons next rest =>
                have hBelow :=
                  vRemoveGo_snd (by simp) hRest
                simp [hBelow, hOnly, vSet]
          · rw [exposed]
            simp only [hMapping, hKey, hFind, hOnly, if_true]
      | false =>
          have hNonempty : rest ≠ [] := by
            rintro rfl
            cases hOnly
          rcases ih hNonempty hRest with
            ⟨above, s, below, u, m', k', child', hSplit,
              hRemoved, hSet, hExposed⟩
          have hBelow := vRemoveGo_snd hNonempty hRest
          have hIs : child.asMapping.isSome = true := by
            cases hC : child.asMapping with
            | some _ => rfl
            | none =>
                rw [valueAt_eq_none_of_not_mapping hC
                  hNonempty] at hRest
                cases hRest
          refine
            ⟨seg :: above, s, below, u, m', k', child',
              by rw [hSplit]; rfl, ⟨?_, hRemoved.mapping,
                hRemoved.key, hRemoved.found,
                hRemoved.only⟩, ?_, ?_⟩
          · rw [valueAt_cons, hMapping, Option.bind_some,
              hKey, Option.bind_some, hFind,
              Option.bind_some]
            exact hRemoved.at'
          · have hEmpty : rest.isEmpty = false := by
              simpa using hNonempty
            rw [vRemoveGo, vSet_cons]
            simp only [hMapping, hKey, hFind, hEmpty,
              Bool.false_eq_true, if_false, hBelow, hOnly,
              Option.getD_some, keyFor, childFor, hIs,
              if_true, hSet]
          · rw [exposed]
            simp only [hMapping, hKey, hFind, hOnly,
              Bool.false_eq_true, if_false, hExposed]

end YamlEdit

------------------------------------------------------------
-- Nothing Beside A Path
------------------------------------------------------------

namespace YamlEdit

variable {v w : Value} {m : Mapping} {k : Key}
variable {seg : String} {p q rest : List String}

/- Reading on from a mapping's key. -/
theorem valueAt_of_key
    {child : Value}
    (hMapping : v.asMapping = some m)
    (hKey : keyOf m seg = some k)
    (hFind : IndexMap.find k m = some child)
    (rest : List String) :
    valueAt v (seg :: rest) = valueAt child rest := by
  rw [valueAt_cons, hMapping, Option.bind_some, hKey,
    Option.bind_some, hFind, Option.bind_some]

theorem valueAt_of_no_key
    (hMapping : v.asMapping = some m)
    (hKey : keyOf m seg = none)
    (rest : List String) :
    valueAt v (seg :: rest) = none := by
  rw [valueAt_cons, hMapping, Option.bind_some, hKey]
  rfl

theorem exists_find_of_keyOf
    (hKey : keyOf m seg = some k) :
    ∃ child, IndexMap.find k m = some child :=
  Option.isSome_iff_exists.mp
    (IndexMap.mem_keys_iff_find.mp (mem_keys_of_keyOf hKey))

theorem apart_of_head_ne
    {seg' : String}
    (hOther : seg ≠ seg') :
    Apart (seg :: rest) (seg' :: q) := by
  constructor
  · intro hPrefix
    exact hOther (List.cons_prefix_cons.mp hPrefix).1
  · intro hPrefix
    exact hOther (List.cons_prefix_cons.mp hPrefix).1.symm

theorem exists_of_onlyPath
    (hOnly : onlyPath v (seg :: rest) = true) :
    ∃ k child,
      v.asMapping = some [(k, child)] ∧ k.text = seg ∧
        onlyPath child rest = true := by
  rw [onlyPath] at hOnly
  split at hOnly
  · rename_i k child hMapping
    rw [Bool.and_eq_true, decide_eq_true_eq] at hOnly
    exact ⟨k, child, hMapping, hOnly.1, hOnly.2⟩
  · cases hOnly

theorem keyOf_singleton
    {child : Value}
    (hText : k.text = seg) :
    keyOf [(k, child)] seg = some k := by
  rw [keyOf_eq_some_iff]
  refine ⟨List.mem_singleton.mpr rfl, hText, ?_⟩
  intro hOther hMem
  have hSame : Key.string seg = k :=
    List.mem_singleton.mp hMem
  rw [← hSame] at hOther
  cases hOther

theorem find_singleton
    (k : Key)
    (child : Value) :
    IndexMap.find k [(k, child)] = some child := by
  rw [IndexMap.find, if_pos rfl]

theorem valueAt_of_onlyPath_of_apart
    (hOnly : onlyPath v p = true)
    (hApart : Apart p q) :
    valueAt v q = none := by
  induction p generalizing v q with
  | nil => exact absurd rfl hApart.ne_nil.1
  | cons seg rest ih =>
      rcases exists_of_onlyPath hOnly with
        ⟨k, child, hMapping, hText, hRest⟩
      cases q with
      | nil => exact absurd rfl hApart.ne_nil.2
      | cons seg' q =>
          by_cases hSame : seg = seg'
          · subst hSame
            rw [valueAt_of_key hMapping
              (keyOf_singleton hText) (find_singleton k child)]
            exact ih hRest (apart_cons_iff.mp hApart)
          · apply valueAt_of_no_key hMapping
            rw [keyOf_eq_none_iff]
            intro k' hMem
            have hKey : k' = k := List.mem_singleton.mp hMem
            rw [hKey, hText]
            exact hSame

theorem onlyPath_of_append
    (hOnly : onlyPath v (p ++ q) = true)
    (hAt : valueAt v p = some w) :
    onlyPath w q = true := by
  induction p generalizing v with
  | nil =>
      cases hAt
      exact hOnly
  | cons seg rest ih =>
      rcases exists_of_onlyPath hOnly with
        ⟨k, child, hMapping, hText, hRest⟩
      rw [valueAt_of_key hMapping (keyOf_singleton hText)
        (find_singleton k child)] at hAt
      exact ih hRest hAt

theorem bare_iff :
    bare v p = true ↔
      valueAt v p = none ∧
        ∀ q, Apart p q → valueAt v q = none := by
  induction p generalizing v with
  | nil => simp [bare, valueAt]
  | cons seg rest ih =>
      rw [bare]
      cases hMapping : v.asMapping with
      | none =>
          simp only [true_iff]
          refine
            ⟨valueAt_eq_none_of_not_mapping hMapping
              (by simp), ?_⟩
          intro q hApart
          exact
            valueAt_eq_none_of_not_mapping hMapping
              hApart.ne_nil.2
      | some m =>
          simp only [Bool.and_eq_true, List.all_eq_true,
            decide_eq_true_eq]
          constructor
          · rintro ⟨hTexts, hBelow⟩
            have hOthers :
                ∀ seg', seg ≠ seg' → keyOf m seg' = none := by
              intro seg' hOther
              rw [keyOf_eq_none_iff]
              intro k hMem
              rw [hTexts k hMem]
              exact hOther
            cases hKey : keyOf m seg with
            | none =>
                refine
                  ⟨valueAt_of_no_key hMapping hKey rest, ?_⟩
                intro q hApart
                cases q with
                | nil => exact absurd rfl hApart.ne_nil.2
                | cons seg' q =>
                    apply valueAt_of_no_key hMapping
                    by_cases hSame : seg = seg'
                    · rw [← hSame, hKey]
                    · exact hOthers seg' hSame
            | some k =>
                rcases exists_find_of_keyOf hKey with
                  ⟨child, hFind⟩
                simp only [hKey, hFind] at hBelow
                have hChild := ih.mp hBelow
                refine ⟨?_, ?_⟩
                · rw [valueAt_of_key hMapping hKey hFind]
                  exact hChild.1
                · intro q hApart
                  cases q with
                  | nil => exact absurd rfl hApart.ne_nil.2
                  | cons seg' q =>
                      by_cases hSame : seg = seg'
                      · subst hSame
                        rw [valueAt_of_key hMapping hKey hFind]
                        exact
                          hChild.2 q (apart_cons_iff.mp hApart)
                      · exact
                          valueAt_of_no_key hMapping
                            (hOthers seg' hSame) q
          · rintro ⟨hNone, hBeside⟩
            refine ⟨?_, ?_⟩
            · intro k hMem
              by_contra hText
              have hAt :=
                hBeside [k.text]
                  (apart_of_head_ne (Ne.symm hText))
              cases hKey : keyOf m k.text with
              | none =>
                  exact keyOf_eq_none_iff.mp hKey k hMem rfl
              | some k' =>
                  rcases exists_find_of_keyOf hKey with
                    ⟨child, hFind⟩
                  rw [valueAt_of_key hMapping hKey hFind] at hAt
                  cases hAt
            · cases hKey : keyOf m seg with
              | none => rfl
              | some k =>
                  rcases exists_find_of_keyOf hKey with
                    ⟨child, hFind⟩
                  simp only [hFind]
                  rw [valueAt_of_key hMapping hKey hFind]
                    at hNone
                  apply ih.mpr
                  refine ⟨hNone, ?_⟩
                  intro q hApart
                  have hAt :=
                    hBeside (seg :: q)
                      (apart_cons_iff.mpr hApart)
                  rw [valueAt_of_key hMapping hKey hFind]
                    at hAt
                  exact hAt

end YamlEdit

------------------------------------------------------------
-- A Key Removed From A Mapping
------------------------------------------------------------

namespace YamlEdit

variable {v w : Value} {m : Mapping} {k : Key}
variable {seg : String} {p : List String}

theorem valueAt_of_removed
    {above below : List String}
    {u child : Value}
    (hRemoved : Removed v above seg below u m k child)
    (rest : List String) :
    valueAt v (above ++ seg :: rest) = valueAt child rest := by
  rw [valueAt_append, hRemoved.at', Option.bind_some,
    valueAt_of_key hRemoved.mapping hRemoved.key
      hRemoved.found]

/- A removal stops at a mapping that it leaves something in. -/
theorem vRemove_concat
    (hAt : valueAt v p = some w)
    (hMapping : w.asMapping = some m)
    (hKey : keyOf m seg = some k)
    (hLeft : p = [] ∨ IndexMap.swapRemove k m ≠ []) :
    vRemove v (p ++ [seg]) =
      vSet v p (w.withMapping (IndexMap.swapRemove k m)) := by
  rcases exists_find_of_keyOf hKey with ⟨c, hFind⟩
  have hEnd : valueAt v (p ++ [seg]) = some c := by
    rw [valueAt_append, hAt, Option.bind_some,
      valueAt_of_key hMapping hKey hFind]
    rfl
  rcases exists_removed (by simp) hEnd with
    ⟨above, seg', below, u, m', k', child, hSplit,
      hRemoved, hSet, -⟩
  rcases List.eq_nil_or_concat below with
    rfl | ⟨init, last, rfl⟩
  · -- the key was taken out at the end of the path
    have hSame :=
      List.append_inj' hSplit rfl
    rcases hSame with ⟨rfl, hSeg⟩
    cases hSeg
    have hU : u = w :=
      Option.some.inj (hRemoved.at'.symm.trans hAt)
    subst hU
    have hM : m' = m :=
      Option.some.inj (hRemoved.mapping.symm.trans hMapping)
    subst hM
    have hK : k' = k :=
      Option.some.inj (hRemoved.key.symm.trans hKey)
    subst hK
    exact hSet
  · -- it was taken out above, so the mapping held no other
    have hOnly := hRemoved.only
    rw [List.concat_eq_append] at hSplit hOnly
    rw [← List.cons_append, ← List.append_assoc] at hSplit
    rcases List.append_inj' hSplit rfl with ⟨rfl, hSeg⟩
    cases hSeg
    rw [valueAt_of_removed hRemoved] at hAt
    rcases exists_of_onlyPath
        (onlyPath_of_append hOnly hAt) with
      ⟨k₀, c₀, hSingle, hText, -⟩
    have hM : m = [(k₀, c₀)] :=
      Option.some.inj (hMapping.symm.trans hSingle)
    subst hM
    have hK : k = k₀ := by
      rw [keyOf_singleton hText] at hKey
      exact (Option.some.inj hKey).symm
    subst hK
    rcases hLeft with hNil | hLeft
    · simp at hNil
    · exact absurd (by simp [IndexMap.swapRemove]) hLeft

end YamlEdit
