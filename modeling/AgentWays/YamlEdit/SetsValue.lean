import AgentWays.YamlEdit.Doc
import AgentWays.YamlEdit.Removal

/-
  An edit of a settings document changes the value it names
  and no other.

  A set is one step on the value, or a merge: the wanted keys
  are set one by one, then the keys they lack are removed by
  their texts. A merge is right where keys of the two
  mappings are told apart by text; a removal is right where
  it brings no other key of the same text to light.

  Key definitions include:
    * `YamlEdit.plain`
    * `YamlEdit.Doc.clean`
    * `YamlEdit.Doc.Names`
    * `YamlEdit.Doc.Lacks`

  Main declarations:
    * `YamlEdit.sync_sets`
    * `YamlEdit.unset_iff`
    * `YamlEdit.edits_named`
-/

------------------------------------------------------------
-- Merges
------------------------------------------------------------

namespace YamlEdit

/-
  Whether a text tells the keys apart that a merge meets: the
  wanted keys are strings, and no other key of the old mapping
  has the text of one.
-/
def plain
    (cm dm : Mapping) : Bool :=
  (IndexMap.keys dm).all Key.isString &&
    (IndexMap.keys cm).all (fun k =>
      k.isString ||
        !decide (Key.string k.text ∈ IndexMap.keys dm))

mutual

/- Whether every merge that a set makes is plain. -/
def Doc.clean
    (y : Yaml) : Value → Doc → List String → Bool
| .mapping dm, doc, path =>
    doc.holds path (.mapping dm) ||
      match doc.merged y path dm with
      | some cm =>
          plain cm dm && Doc.cleanEntries y dm doc path
      | none => true
| _, _, _ => true

def Doc.cleanEntries
    (y : Yaml) :
    List (Key × Value) → Doc → List String → Bool
| [], _, _ => true
| (k, v) :: rest, doc, path =>
    Doc.clean y v doc (path ++ [k.text]) &&
      match Doc.sync y v doc (path ++ [k.text]) with
      | .ok doc' => Doc.cleanEntries y rest doc' path
      | .error _ => true

end

/- `doc'` holds `v` at `path`, and what `doc` had beside it. -/
structure Doc.Names
    (doc doc' : Doc)
    (path : List String)
    (v : Value) : Prop where
  held : doc'.holds path v = true
  beside : ∀ q, Apart path q → doc'.get q = doc.get q

/-
  `doc'` has nothing at `path` and what `doc` had beside it;
  an ancestor is gone where it held nothing but the path.
-/
structure Doc.Lacks
    (doc doc' : Doc)
    (path : List String) : Prop where
  gone : doc'.get path = none
  beside : ∀ q, Apart path q → doc'.get q = doc.get q
  above :
    ∀ p q a,
      path = p ++ q → q ≠ [] → doc.get p = some a →
        doc'.get p = none → onlyPath a q = true

variable {y : Yaml} {doc doc' : Doc} {root : Value}
variable {path : List String} {m n dm : Mapping} {k : Key}
variable {v : Value}

theorem plain_iff :
    plain m dm = true ↔
      (∀ k ∈ IndexMap.keys dm, k.isString = true) ∧
        ∀ k ∈ IndexMap.keys m, k.isString = false →
          Key.string k.text ∉ IndexMap.keys dm := by
  unfold plain
  rw [Bool.and_eq_true, List.all_eq_true, List.all_eq_true]
  apply and_congr_right'
  apply forall_congr'
  intro k
  apply imp_congr_right
  intro _
  cases k.isString <;> simp

theorem Key.eq_string
    (hString : k.isString = true) :
    k = .string k.text := by
  cases k with
  | string s => rfl
  | bool b => cases hString
  | number n => cases hString

/- The mapping at `path` while its keys are edited. -/
structure Merging
    (root : Value)
    (path : List String)
    (doc : Doc)
    (m : Mapping) : Prop where
  value : doc.value = vSet root path (.mapping m)
  distinct : (Value.mapping m).Distinct

theorem Merging.at'
    (hMerging : Merging root path doc m) :
    doc.get path = some (.mapping m) := by
  unfold Doc.get
  rw [hMerging.value, valueAt_vSet]

theorem Merging.parsed
    (hMerging : Merging root path doc m)
    (hRoot : (∃ m, root = .mapping m) ∧ root.Distinct) :
    doc.Parsed := by
  constructor
  · rw [hMerging.value]
    exact vSet_root hRoot.1 ⟨m, rfl⟩ path
  · rw [hMerging.value]
    exact distinct_vSet hRoot.2 hMerging.distinct path

/- A value set below the mapping is put into it. -/
theorem Merging.set
    (hMerging : Merging root path doc m)
    {seg : String}
    {w : Value}
    (hValue : doc'.value = vSet doc.value (path ++ [seg]) w)
    (hDistinct : w.Distinct) :
    Merging root path doc'
      (IndexMap.insert (keyFor m seg) w m) where
  value := by
    have hAt := hMerging.at'
    unfold Doc.get at hAt
    rw [hValue, vSet_concat hAt rfl, hMerging.value,
      vSet_vSet]
    rfl
  distinct := distinct_insert hMerging.distinct hDistinct _

/- A key removed below the mapping is taken out of it. -/
theorem Merging.remove
    (hMerging : Merging root path doc m)
    {seg : String}
    (hKey : keyOf m seg = some k)
    (hLeft : path = [] ∨ IndexMap.swapRemove k m ≠ [])
    (hValue : doc'.value = vRemove doc.value (path ++ [seg])) :
    Merging root path doc' (IndexMap.swapRemove k m) where
  value := by
    have hAt := hMerging.at'
    unfold Doc.get at hAt
    rw [hValue, vRemove_concat hAt rfl hKey hLeft,
      hMerging.value, vSet_vSet]
    rfl
  distinct := distinct_swapRemove hMerging.distinct k

theorem syncNone_value
    (hSync : doc.syncNone y path = .ok doc') :
    (doc.get path = none ∧ doc' = doc) ∨
      (path ≠ [] ∧ ∃ w, doc.get path = some w ∧
        doc'.value = vRemove doc.value path) := by
  unfold Doc.syncNone at hSync
  split at hSync
  · rename_i hNone
    injection hSync with hSame
    exact Or.inl ⟨Option.isNone_iff_eq_none.mp hNone, hSame.symm⟩
  · rename_i hSome
    split at hSync
    · cases hSync
    · rename_i hPath
      injection hSync with hDoc
      have hThere : doc.get path ≠ none := by
        simpa using hSome
      rcases Option.ne_none_iff_exists'.mp hThere with ⟨w, hAt⟩
      exact
        Or.inr
          ⟨by simpa using hPath, w, hAt, by rw [← hDoc]⟩

end YamlEdit

------------------------------------------------------------
-- The Keys Removed
------------------------------------------------------------

namespace YamlEdit

variable {y : Yaml} {doc doc' : Doc} {root : Value}
variable {path : List String} {m n dm : Mapping} {k : Key}

/- How many keys have the text `t`. -/
def countText
    (t : String)
    (ks : List Key) : Nat :=
  ks.countP (fun k => decide (k.text = t))

theorem countText_cons
    (t : String)
    (k : Key)
    (ks : List Key) :
    countText t (k :: ks) =
      countText t ks + if k.text = t then 1 else 0 := by
  unfold countText
  rw [List.countP_cons]
  simp

theorem countText_swapRemove
    (hDistinct : IndexMap.Distinct m)
    (hMem : k ∈ IndexMap.keys m)
    (t : String) :
    countText t (IndexMap.keys m) =
      countText t (IndexMap.keys (IndexMap.swapRemove k m)) +
        if k.text = t then 1 else 0 := by
  rw [← countText_cons]
  exact
    (IndexMap.keys_perm_of_mem hDistinct hMem).countP_eq _

theorem countText_eq_zero
    (hKey : keyOf m seg = none) :
    countText seg (IndexMap.keys m) = 0 := by
  unfold countText
  rw [List.countP_eq_zero]
  intro k hMem
  simpa using keyOf_eq_none_iff.mp hKey k hMem

/-
  The removals take out every key whose text the wanted
  mapping lacks, and no other.
-/
theorem syncAbsent_merging
    {ks : List Key}
    (hMerging : Merging root path doc n)
    (hStrings : ∀ k ∈ IndexMap.keys dm, k.isString = true)
    (hWanted :
      ∀ k ∈ IndexMap.keys dm, k ∈ IndexMap.keys n)
    (hLeft : path = [] ∨ dm ≠ [])
    (hCount :
      ∀ t, Key.string t ∉ IndexMap.keys dm →
        countText t (IndexMap.keys n) ≤ countText t ks)
    (hSync : doc.syncAbsent y path dm ks = .ok doc') :
    ∃ n',
      Merging root path doc' n' ∧
        (∀ k ∈ IndexMap.keys dm,
          IndexMap.find k n' = IndexMap.find k n) ∧
        ∀ k ∈ IndexMap.keys n',
          k ∈ IndexMap.keys n ∧
            Key.string k.text ∈ IndexMap.keys dm := by
  induction ks generalizing doc n with
  | nil =>
      injection hSync with hSame
      subst hSame
      refine ⟨n, hMerging, fun k _ => rfl, ?_⟩
      intro k hMem
      refine ⟨hMem, ?_⟩
      by_contra hNot
      have hNone := hCount k.text hNot
      have hPos : 0 < countText k.text (IndexMap.keys n) :=
        List.countP_pos_iff.mpr ⟨k, hMem, by simp⟩
      exact absurd hNone (Nat.not_le.mpr hPos)
  | cons k₀ ks ih =>
      rw [Doc.syncAbsent] at hSync
      split at hSync
      · rename_i hIn
        apply ih hMerging hWanted _ hSync
        intro t hNot
        have hOther : k₀.text ≠ t := by
          rintro rfl
          exact hNot hIn
        have hOld := hCount t hNot
        rwa [countText_cons, if_neg hOther] at hOld
      · rename_i hOut
        split at hSync
        · rename_i doc₁ hStep
          have hDistinct :=
            (distinct_mapping_iff.mp hMerging.distinct).1
          have hAt := hMerging.at'
          unfold Doc.get at hAt
          cases hKey : keyOf n k₀.text with
          | none =>
              have hGet :
                  doc.get (path ++ [k₀.text]) = none := by
                unfold Doc.get
                rw [valueAt_append, hAt, Option.bind_some]
                exact valueAt_of_no_key rfl hKey []
              rcases syncNone_value hStep with
                ⟨-, rfl⟩ | ⟨-, w, hSome, -⟩
              · apply ih hMerging hWanted _ hSync
                intro t hNot
                have hOld := hCount t hNot
                rw [countText_cons] at hOld
                by_cases hSame : k₀.text = t
                · rw [← hSame, countText_eq_zero hKey]
                  exact Nat.zero_le _
                · rwa [if_neg hSame] at hOld
              · rw [hGet] at hSome
                cases hSome
          | some k =>
              have hText := text_of_keyOf hKey
              have hMem := mem_keys_of_keyOf hKey
              rcases exists_find_of_keyOf hKey with
                ⟨child, hFind⟩
              have hNotWanted : k ∉ IndexMap.keys dm := by
                intro hIn
                have hString :=
                  Key.eq_string (hStrings k hIn)
                rw [hString, hText] at hIn
                exact hOut hIn
              have hGet :
                  doc.get (path ++ [k₀.text]) =
                    some child := by
                unfold Doc.get
                rw [valueAt_append, hAt, Option.bind_some]
                exact valueAt_of_key rfl hKey hFind []
              have hStays :
                  path = [] ∨
                    IndexMap.swapRemove k n ≠ [] := by
                rcases hLeft with hNil | hSome
                · exact Or.inl hNil
                · right
                  rcases List.exists_mem_of_ne_nil dm hSome
                    with ⟨e, hEntry⟩
                  have hIn : e.1 ∈ IndexMap.keys dm :=
                    List.mem_map_of_mem hEntry
                  intro hNil
                  have hKept :
                      e.1 ∈
                        IndexMap.keys
                          (IndexMap.swapRemove k n) := by
                    rw [IndexMap.mem_keys_swapRemove
                      hDistinct]
                    refine ⟨hWanted _ hIn, ?_⟩
                    intro hSame
                    rw [hSame] at hIn
                    exact hNotWanted hIn
                  rw [hNil] at hKept
                  cases hKept
              rcases syncNone_value hStep with
                ⟨hNone, -⟩ | ⟨-, w, -, hValue⟩
              · rw [hGet] at hNone
                cases hNone
              · have hNext :=
                  hMerging.remove hKey hStays hValue
                rcases ih hNext
                    (by
                      intro k' hIn
                      rw [IndexMap.mem_keys_swapRemove
                        hDistinct]
                      refine ⟨hWanted k' hIn, ?_⟩
                      rintro rfl
                      exact hNotWanted hIn)
                    (by
                      intro t hNot
                      have hOld := hCount t hNot
                      rw [countText_cons,
                        countText_swapRemove hDistinct hMem,
                        hText] at hOld
                      omega)
                    hSync with
                  ⟨n', hMerging', hKept, hKeys⟩
                refine ⟨n', hMerging', ?_, ?_⟩
                · intro k' hIn
                  rw [hKept k' hIn,
                    IndexMap.find_swapRemove hDistinct,
                    if_neg]
                  rintro rfl
                  exact hNotWanted hIn
                · intro k' hIn
                  have hBoth := hKeys k' hIn
                  exact
                    ⟨((IndexMap.mem_keys_swapRemove
                      hDistinct).mp hBoth.1).1, hBoth.2⟩
        · cases hSync

end YamlEdit

------------------------------------------------------------
-- The Keys Set
------------------------------------------------------------

namespace YamlEdit

variable {y : Yaml} {doc doc' : Doc} {root : Value}
variable {path : List String} {m n cm dm : Mapping} {k : Key}

/- The text of a wanted key names that key. -/
theorem keyFor_of_string
    (hString : k.isString = true)
    (hOthers :
      ∀ k' ∈ IndexMap.keys m, k'.isString = false →
        k'.text ≠ k.text) :
    keyFor m k.text = k := by
  have hSelf := Key.eq_string hString
  unfold keyFor
  cases hKey : keyOf m k.text with
  | none => exact hSelf.symm
  | some k' =>
      rw [keyOf_eq_some_iff] at hKey
      cases hString' : k'.isString with
      | true =>
          rw [Option.getD_some, Key.eq_string hString',
            hKey.2.1, ← hSelf]
      | false =>
          exact absurd hKey.2.1 (hOthers k' hKey.1 hString')

/- What the wanted keys leave in the mapping they are set in. -/
structure Placed
    (entries m m' : Mapping) : Prop where
  keys :
    ∀ k, k ∈ IndexMap.keys m' ↔
      k ∈ IndexMap.keys m ∨ k ∈ IndexMap.keys entries
  kept :
    ∀ k, k ∉ IndexMap.keys entries →
      IndexMap.find k m' = IndexMap.find k m
  placed :
    ∀ e ∈ entries, ∃ w,
      IndexMap.find e.1 m' = some w ∧ w.eq e.2 = true

theorem placed_nil :
    Placed [] m m where
  keys := by simp [IndexMap.keys]
  kept := fun _ _ => rfl
  placed := by simp

theorem Placed.cons
    {entries m' : Mapping}
    {v w : Value}
    (hNew : k ∉ IndexMap.keys entries)
    (hEq : w.eq v = true)
    (hPlaced : Placed entries (IndexMap.insert k w m) m') :
    Placed ((k, v) :: entries) m m' where
  keys := by
    intro k'
    rw [hPlaced.keys, IndexMap.mem_keys_insert]
    simp only [IndexMap.keys, List.map_cons, List.mem_cons]
    tauto
  kept := by
    intro k' hNot
    simp only [IndexMap.keys, List.map_cons, List.mem_cons,
      not_or] at hNot
    rw [hPlaced.kept k' hNot.2,
      IndexMap.find_insert_of_ne (Ne.symm hNot.1)]
  placed := by
    intro e hMem
    rcases List.mem_cons.mp hMem with hHead | hRest
    · subst hHead
      exact
        ⟨w, by rw [hPlaced.kept k hNew,
          IndexMap.find_insert_self], hEq⟩
    · exact hPlaced.placed e hRest

/- The mapping that a plain merge ends with is the wanted one. -/
theorem eq_of_merge
    {m' n' : Mapping}
    (hPlain : plain cm dm = true)
    (hPlaced : Placed dm cm m')
    (hDm : IndexMap.Distinct dm)
    (hDistinct : IndexMap.Distinct n')
    (hKept :
      ∀ k ∈ IndexMap.keys dm,
        IndexMap.find k n' = IndexMap.find k m')
    (hKeys :
      ∀ k ∈ IndexMap.keys n',
        k ∈ IndexMap.keys m' ∧
          Key.string k.text ∈ IndexMap.keys dm) :
    (Value.mapping n').eq (.mapping dm) = true := by
  have hBoth := plain_iff.mp hPlain
  apply Value.eq_mapping hDistinct hDm
  · intro k
    constructor
    · intro hIn
      have hText := hKeys k hIn
      cases hString : k.isString with
      | true =>
          rw [Key.eq_string hString]
          exact hText.2
      | false =>
          rcases (hPlaced.keys k).mp hText.1 with hOld | hNew
          · exact absurd hText.2 (hBoth.2 k hOld hString)
          · exact hNew
    · intro hIn
      rw [IndexMap.mem_keys_iff_find, hKept k hIn,
        ← IndexMap.mem_keys_iff_find]
      exact (hPlaced.keys k).mpr (Or.inr hIn)
  · intro k v w hFind hWanted
    have hIn : k ∈ IndexMap.keys dm := by
      rw [IndexMap.mem_keys_iff_find, hWanted]
      rfl
    rcases hPlaced.placed (k, w) (IndexMap.mem_of_find hWanted)
      with ⟨u, hPlace, hEq⟩
    rw [hKept k hIn, hPlace] at hFind
    cases hFind
    exact hEq

/- The keys beside the wanted ones are as many as before. -/
theorem countText_placed
    {m' : Mapping}
    (hStrings : ∀ k ∈ IndexMap.keys dm, k.isString = true)
    (hPlaced : Placed dm cm m')
    (hDistinct : IndexMap.Distinct m')
    {t : String}
    (hNot : Key.string t ∉ IndexMap.keys dm) :
    countText t (IndexMap.keys m') ≤
      countText t (IndexMap.keys cm) := by
  unfold countText
  rw [List.countP_eq_length_filter,
    List.countP_eq_length_filter]
  apply List.Subperm.length_le
  apply List.subperm_of_subset
  · exact List.Nodup.filter _ hDistinct
  · intro k hMem
    rw [List.mem_filter] at hMem ⊢
    refine ⟨?_, hMem.2⟩
    rcases (hPlaced.keys k).mp hMem.1 with hOld | hNew
    · exact hOld
    · have hText : k.text = t := by simpa using hMem.2
      rw [Key.eq_string (hStrings k hNew), hText] at hNew
      exact absurd hNew hNot

/- A value that is there is set already. -/
theorem exists_of_holds
    (hDoc : doc.Parsed)
    {v : Value}
    (hHolds : doc.holds path v = true) :
    ∃ w, w.eq v = true ∧ w.Distinct ∧
      doc.value = vSet doc.value path w := by
  unfold Doc.holds at hHolds
  split at hHolds
  · rename_i w hAt
    unfold Doc.get at hAt
    exact
      ⟨w, hHolds, distinct_valueAt hDoc.distinct hAt,
        (vSet_self hAt).symm⟩
  · cases hHolds

/- A merge starts from the mapping that is there. -/
theorem merging_of_merged
    (hDoc : doc.Parsed)
    (hMerged : doc.merged y path dm = some cm) :
    Merging doc.value path doc cm ∧
      (path = [] ∨ dm ≠ []) := by
  unfold Doc.merged at hMerged
  split at hMerged
  · rename_i cm' hAt
    split at hMerged
    · rename_i hMerges
      injection hMerged with hSame
      subst hSame
      unfold Doc.get at hAt
      refine
        ⟨⟨(vSet_self hAt).symm,
          distinct_valueAt hDoc.distinct hAt⟩, ?_⟩
      rw [Bool.or_eq_true] at hMerges
      rcases hMerges with hRoot | hBlock
      · exact Or.inl (List.isEmpty_iff.mp hRoot)
      · right
        rintro rfl
        simp at hBlock
    · cases hMerged
  · rename_i hNot
    split at hMerged
    · rename_i hRoot
      rcases hDoc.root with ⟨m, hValue⟩
      have hPath : path = [] := List.isEmpty_iff.mp hRoot
      subst hPath
      exact absurd (congrArg some hValue) (hNot m)
    · cases hMerged

/- A value that is no mapping is set in one step. -/
theorem sync_whole_sets
    {v : Value}
    (hNot : ∀ m, v ≠ .mapping m)
    (hDoc : doc.Parsed)
    (hV : v.Distinct)
    (hSync : doc.sync y v path = .ok doc') :
    ∃ w, w.eq v = true ∧ w.Distinct ∧
      doc'.value = vSet doc.value path w := by
  have hStep :
      doc.sync y v path =
        if doc.holds path v then .ok doc
        else if path.isEmpty then .error .notMapping
        else .ok (doc.setWhole y path v) := by
    rw [Doc.sync]
    exact hNot
  rw [hStep] at hSync
  split at hSync
  · rename_i hHolds
    injection hSync with hSame
    rw [← hSame]
    exact exists_of_holds hDoc hHolds
  · split at hSync
    · cases hSync
    · injection hSync with hSame
      rw [← hSame]
      exact ⟨v, Value.eq_refl hV, hV, rfl⟩

mutual

/- A clean set is one set of an equal value. -/
theorem sync_sets
    {y : Yaml}
    {doc doc' : Doc}
    {path : List String}
    (v : Value)
    (hDoc : doc.Parsed)
    (hV : v.Distinct)
    (hClean : doc.clean y v path = true)
    (hSync : doc.sync y v path = .ok doc') :
    ∃ w, w.eq v = true ∧ w.Distinct ∧
      doc'.value = vSet doc.value path w := by
  cases v with
  | mapping dm =>
      rw [Doc.sync] at hSync
      rw [Doc.clean, Bool.or_eq_true] at hClean
      split at hSync
      · rename_i hHolds
        injection hSync with hSame
        rw [← hSame]
        exact exists_of_holds hDoc hHolds
      · rename_i hNot
        cases hMerged : doc.merged y path dm with
        | none =>
            rw [hMerged] at hSync
            injection hSync with hSame
            rw [← hSame]
            exact ⟨.mapping dm, Value.eq_refl hV, hV, rfl⟩
        | some cm =>
            rw [hMerged] at hSync hClean
            have hPlainClean := hClean.resolve_left hNot
            simp only [Bool.and_eq_true] at hPlainClean
            have hPlain := plain_iff.mp hPlainClean.1
            have hDm := distinct_mapping_iff.mp hV
            rcases merging_of_merged hDoc hMerged with
              ⟨hMerging, hLeft⟩
            dsimp only at hSync
            split at hSync
            · rename_i doc₁ hEntries
              rcases syncEntries_sets dm
                  ⟨hDoc.root, hDoc.distinct⟩ hMerging hDm.1
                  hDm.2 hPlain.1
                  (fun k hIn k' hOld hString hText =>
                    hPlain.2 k' hOld hString
                      (by
                        rw [hText,
                          ← Key.eq_string (hPlain.1 k hIn)]
                        exact hIn))
                  hPlainClean.2 hEntries with
                ⟨m', hMerging', hPlaced⟩
              have hDistinct :=
                (distinct_mapping_iff.mp hMerging'.distinct).1
              rcases syncAbsent_merging hMerging' hPlain.1
                  (fun k hIn =>
                    (hPlaced.keys k).mpr (Or.inr hIn))
                  hLeft
                  (fun t hOut =>
                    countText_placed hPlain.1 hPlaced
                      hDistinct hOut)
                  hSync with
                ⟨n', hMerging'', hKept, hKeys⟩
              exact
                ⟨.mapping n',
                  eq_of_merge hPlainClean.1 hPlaced hDm.1
                    (distinct_mapping_iff.mp
                      hMerging''.distinct).1
                    hKept hKeys,
                  hMerging''.distinct, hMerging''.value⟩
            · cases hSync
  | null => exact sync_whole_sets (by simp) hDoc hV hSync
  | bool b => exact sync_whole_sets (by simp) hDoc hV hSync
  | number n => exact sync_whole_sets (by simp) hDoc hV hSync
  | string s => exact sync_whole_sets (by simp) hDoc hV hSync
  | sequence items =>
      exact sync_whole_sets (by simp) hDoc hV hSync
  | tagged tag v =>
      exact sync_whole_sets (by simp) hDoc hV hSync

theorem syncEntries_sets
    {y : Yaml}
    {doc doc' : Doc}
    {root : Value}
    {path : List String}
    {m : Mapping}
    (entries : List (Key × Value))
    (hRoot : (∃ m, root = .mapping m) ∧ root.Distinct)
    (hMerging : Merging root path doc m)
    (hKeys : IndexMap.Distinct entries)
    (hValues : ∀ e ∈ entries, e.2.Distinct)
    (hStrings :
      ∀ k ∈ IndexMap.keys entries, k.isString = true)
    (hOthers :
      ∀ k ∈ IndexMap.keys entries, ∀ k' ∈ IndexMap.keys m,
        k'.isString = false → k'.text ≠ k.text)
    (hClean : doc.cleanEntries y entries path = true)
    (hSync : doc.syncEntries y entries path = .ok doc') :
    ∃ m', Merging root path doc' m' ∧ Placed entries m m' := by
  cases entries with
  | nil =>
      rw [Doc.syncEntries] at hSync
      injection hSync with hSame
      rw [← hSame]
      exact ⟨m, hMerging, placed_nil⟩
  | cons e rest =>
      rcases e with ⟨k, v⟩
      rw [Doc.syncEntries] at hSync
      rw [Doc.cleanEntries, Bool.and_eq_true] at hClean
      have hIn : k ∈ IndexMap.keys ((k, v) :: rest) :=
        List.mem_cons_self
      have hNodup : (k :: IndexMap.keys rest).Nodup := hKeys
      rw [List.nodup_cons] at hNodup
      split at hSync
      · rename_i doc₁ hStep
        rw [hStep] at hClean
        rcases sync_sets v (hMerging.parsed hRoot)
            (hValues (k, v) List.mem_cons_self) hClean.1
            hStep with
          ⟨w, hEq, hW, hValue⟩
        have hNext := hMerging.set hValue hW
        rw [keyFor_of_string (hStrings k hIn)
          (hOthers k hIn)] at hNext
        rcases syncEntries_sets rest hRoot hNext hNodup.2
            (fun e hMem =>
              hValues e (List.mem_cons_of_mem _ hMem))
            (fun k' hMem =>
              hStrings k' (List.mem_cons_of_mem _ hMem))
            (by
              intro k' hMem k'' hOld hString
              rcases IndexMap.mem_keys_insert.mp hOld with
                rfl | hOld
              · rw [hStrings k'' hIn] at hString
                cases hString
              · exact
                  hOthers k' (List.mem_cons_of_mem _ hMem)
                    k'' hOld hString)
            hClean.2 hSync with
          ⟨m', hMerging', hPlaced⟩
        exact ⟨m', hMerging', hPlaced.cons hNodup.1 hEq⟩
      · cases hSync

end

end YamlEdit

------------------------------------------------------------
-- Removals
------------------------------------------------------------

namespace YamlEdit

variable {v w : Value} {p q : List String}

theorem exists_of_onlyPath_true
    (hOnly : onlyPath v p = true) :
    ∃ w, valueAt v p = some w := by
  induction p generalizing v with
  | nil => exact ⟨v, rfl⟩
  | cons seg rest ih =>
      rcases exists_of_onlyPath hOnly with
        ⟨k, child, hMapping, hText, hRest⟩
      rw [valueAt_of_key hMapping (keyOf_singleton hText)
        (find_singleton k child)]
      exact ih hRest

/- What is not there is not removed, and veils nothing. -/
theorem exposed_eq_none
    (hNone : valueAt v p = none) :
    exposed v p = none := by
  induction p generalizing v with
  | nil => rfl
  | cons seg rest ih =>
      rw [exposed]
      cases hMapping : v.asMapping with
      | none => rfl
      | some m =>
          dsimp only
          cases hKey : keyOf m seg with
          | none => rfl
          | some k =>
              rcases exists_find_of_keyOf hKey with
                ⟨child, hFind⟩
              rw [valueAt_of_key hMapping hKey hFind] at hNone
              simp only [hFind]
              split
              · rename_i hOnly
                rcases exists_of_onlyPath_true hOnly with
                  ⟨w, hAt⟩
                rw [hNone] at hAt
                cases hAt
              · exact ih hNone

/- Every value on the way to one that was set is there. -/
theorem valueAt_vSet_above
    (cur : Value)
    (hPrefix : q <+: p)
    (w : Value) :
    valueAt (vSet cur p w) q ≠ none := by
  rcases hPrefix with ⟨rest, rfl⟩
  intro hNone
  have hAt := valueAt_vSet cur (q ++ rest) w
  rw [valueAt_append, hNone] at hAt
  cases hAt

/- Below the removed key's text is what it uncovers. -/
theorem valueAt_removed
    {above : List String}
    {seg : String}
    {u : Value}
    {m : Mapping}
    {k : Key}
    (v : Value)
    (rest : List String) :
    valueAt
        (vSet v above
          (u.withMapping (IndexMap.swapRemove k m)))
        (above ++ seg :: rest) =
      (uncovered m k seg).bind
        (fun x => valueAt x rest) := by
  rw [valueAt_append, valueAt_vSet, Option.bind_some,
    valueAt_cons, Value.asMapping_withMapping]
  rfl

theorem valueAt_removed_of_ne
    {above below : List String}
    {seg seg' : String}
    {u child : Value}
    {m : Mapping}
    {k : Key}
    (hRemoved : Removed v above seg below u m k child)
    (hDistinct : IndexMap.Distinct m)
    (hOther : seg ≠ seg')
    (rest : List String) :
    valueAt
        (vSet v above
          (u.withMapping (IndexMap.swapRemove k m)))
        (above ++ seg' :: rest) =
      valueAt v (above ++ seg' :: rest) := by
  have hText : k.text ≠ seg' := by
    rw [text_of_keyOf hRemoved.key]
    exact hOther
  rw [valueAt_append, valueAt_vSet, valueAt_append,
    hRemoved.at', Option.bind_some, Option.bind_some,
    valueAt_cons, valueAt_cons, hRemoved.mapping,
    Value.asMapping_withMapping, Option.bind_some,
    Option.bind_some,
    keyOf_swapRemove_of_ne hDistinct hText]
  congr 1
  apply Option.bind_congr
  intro k' hKey
  exact find_swapRemove_of_keyOf hDistinct hText hKey

/- Beside a path a removal is seen under its key's text alone. -/
theorem exists_of_apart_removed
    {above below : List String}
    {seg : String}
    (hApart : Apart (above ++ seg :: below) q) :
    Apart above q ∨
      (∃ seg' rest, q = above ++ seg' :: rest ∧
        seg ≠ seg') ∨
      ∃ rest, q = above ++ seg :: rest ∧
        Apart below rest := by
  by_cases hAbove : Apart above q
  · exact Or.inl hAbove
  · right
    have hNotBelow : ¬ q <+: above := by
      intro hPrefix
      exact
        hApart.2
          (hPrefix.trans (List.prefix_append _ _))
    have hPrefix : above <+: q := by
      by_contra hNot
      exact hAbove ⟨hNot, hNotBelow⟩
    rcases hPrefix with ⟨rest, rfl⟩
    cases rest with
    | nil =>
        rw [List.append_nil] at hNotBelow
        exact absurd (List.prefix_refl _) hNotBelow
    | cons seg' rest =>
        by_cases hSame : seg = seg'
        · subst hSame
          refine Or.inr ⟨rest, rfl, ?_⟩
          constructor
          · intro hPre
            apply hApart.1
            rw [List.prefix_append_right_inj,
              List.cons_prefix_cons]
            exact ⟨rfl, hPre⟩
          · intro hPre
            apply hApart.2
            rw [List.prefix_append_right_inj,
              List.cons_prefix_cons]
            exact ⟨rfl, hPre⟩
        · exact Or.inl ⟨seg', rest, rfl, hSame⟩

end YamlEdit

------------------------------------------------------------
-- Edits And Values
------------------------------------------------------------

namespace YamlEdit

variable {y : Yaml} {doc doc' : Doc} {path : List String}

theorem set_names
    {v : Value}
    (hDoc : doc.Parsed)
    (hV : v.Distinct)
    (hClean : doc.clean y v path = true)
    (hSet : doc.set y path v = .ok doc') :
    doc.Names doc' path v := by
  rcases sync_sets v hDoc hV hClean hSet with
    ⟨w, hEq, -, hValue⟩
  constructor
  · unfold Doc.holds Doc.get
    rw [hValue, valueAt_vSet]
    exact hEq
  · intro q hApart
    unfold Doc.get
    rw [hValue, valueAt_vSet_of_apart _ _ hApart]

/- A removal that is made, by what it uncovers. -/
theorem lacks_iff
    {above below : List String}
    {seg : String}
    {u child : Value}
    {m : Mapping}
    {k : Key}
    (hDoc : doc.Parsed)
    (hPath : path = above ++ seg :: below)
    (hRemoved :
      Removed doc.value above seg below u m k child)
    (hValue :
      doc'.value =
        vSet doc.value above
          (u.withMapping (IndexMap.swapRemove k m))) :
    doc.Lacks doc' path ↔
      ∀ x, uncovered m k seg = some x →
        bare x below = true := by
  have hDistinct : IndexMap.Distinct m :=
    (distinct_mapping_iff.mp
      (distinct_asMapping
        (distinct_valueAt hDoc.distinct hRemoved.at')
        hRemoved.mapping)).1
  have hAfter :
      ∀ rest, doc'.get (above ++ seg :: rest) =
        (uncovered m k seg).bind
          (fun x => valueAt x rest) := by
    intro rest
    unfold Doc.get
    rw [hValue, valueAt_removed]
  have hBefore :
      ∀ rest, doc.get (above ++ seg :: rest) =
        valueAt child rest :=
    fun rest => valueAt_of_removed hRemoved rest
  constructor
  · intro hLacks x hUncovered
    rw [bare_iff]
    constructor
    · have hGone := hLacks.gone
      rw [hPath, hAfter, hUncovered] at hGone
      exact hGone
    · intro q hApart
      have hBeside :=
        hLacks.beside (above ++ seg :: q) (by
          rw [hPath]
          constructor
          · intro hPrefix
            rw [List.prefix_append_right_inj,
              List.cons_prefix_cons] at hPrefix
            exact hApart.1 hPrefix.2
          · intro hPrefix
            rw [List.prefix_append_right_inj,
              List.cons_prefix_cons] at hPrefix
            exact hApart.2 hPrefix.2)
      rw [hAfter, hBefore, hUncovered,
        valueAt_of_onlyPath_of_apart hRemoved.only hApart]
        at hBeside
      exact hBeside
  · intro hBare
    have hNone :
        ∀ rest, rest = below ∨ Apart below rest →
          doc'.get (above ++ seg :: rest) = none := by
      intro rest hRest
      rw [hAfter]
      cases hUncovered : uncovered m k seg with
      | none => rfl
      | some x =>
          have hBoth := bare_iff.mp (hBare x hUncovered)
          rcases hRest with rfl | hApart
          · exact hBoth.1
          · exact hBoth.2 rest hApart
    constructor
    · rw [hPath]
      exact hNone below (Or.inl rfl)
    · intro q hApart
      rw [hPath] at hApart
      rcases exists_of_apart_removed hApart with
        hAbove | ⟨seg', rest, rfl, hOther⟩ |
          ⟨rest, rfl, hBeside⟩
      · unfold Doc.get
        rw [hValue, valueAt_vSet_of_apart _ _ hAbove]
      · unfold Doc.get
        rw [hValue,
          valueAt_removed_of_ne hRemoved hDistinct hOther]
      · rw [hNone rest (Or.inr hBeside), hBefore,
          valueAt_of_onlyPath_of_apart hRemoved.only hBeside]
    · intro p q a hSplit hQ hThere hGone
      have hNotAbove : ¬ p <+: above := by
        intro hPrefix
        unfold Doc.get at hGone
        rw [hValue] at hGone
        exact valueAt_vSet_above _ hPrefix _ hGone
      rw [hPath] at hSplit
      rcases List.append_eq_append_iff.mp hSplit with
        ⟨mid, rfl, hMid⟩ | ⟨mid, rfl, -⟩
      · cases mid with
        | nil =>
            rw [List.append_nil] at hNotAbove
            exact absurd (List.prefix_refl _) hNotAbove
        | cons seg' mid =>
            rw [List.cons_append, List.cons.injEq] at hMid
            rcases hMid with ⟨rfl, hBelow⟩
            have hOnly := hRemoved.only
            rw [hBelow] at hOnly
            rw [hBefore] at hThere
            exact onlyPath_of_append hOnly hThere
      · exact absurd (List.prefix_append _ _) hNotAbove

/-
  A removal takes out its path alone just where it brings no
  other key of the same text to light, save one that holds
  nothing at the rest of the path or beside it.
-/
theorem unset_iff
    {had : Bool}
    (hDoc : doc.Parsed)
    (hUnset : doc.unset y path = .ok (had, doc')) :
    Veiled doc.value path = true ↔ doc.Lacks doc' path := by
  have hSync : doc.syncNone y path = .ok doc' := by
    unfold Doc.unset at hUnset
    split at hUnset
    · rename_i doc₁ hStep
      injection hUnset with hPair
      rw [hStep, (Prod.mk.inj hPair).2]
    · cases hUnset
  unfold Veiled
  rcases syncNone_value hSync with
    ⟨hNone, rfl⟩ | ⟨hPath, w, hAt, hValue⟩
  · rw [exposed_eq_none hNone]
    simp only [true_iff]
    refine ⟨hNone, fun _ _ => rfl, ?_⟩
    intro p q a _ _ hThere hGone
    rw [hThere] at hGone
    cases hGone
  · rcases exists_removed hPath hAt with
      ⟨above, seg, below, u, m, k, child, hSplit, hRemoved,
        hRemoves, hExposed⟩
    rw [hRemoves] at hValue
    rw [lacks_iff hDoc hSplit hRemoved hValue, hExposed]
    cases uncovered m k seg with
    | none => simp
    | some x => simp

/- An edit changes the value it names and no other. -/
theorem edits_named
    (y : Yaml)
    (doc : Doc)
    (hDoc : doc.Parsed)
    (path : List String) :
    (∀ v doc',
      v.Distinct → doc.clean y v path = true →
        doc.set y path v = .ok doc' →
          doc.Names doc' path v) ∧
      ∀ had doc',
        doc.unset y path = .ok (had, doc') →
          (Veiled doc.value path = true ↔
            doc.Lacks doc' path) :=
  ⟨fun _ _ hV hClean hSet =>
      set_names hDoc hV hClean hSet,
    fun _ _ hUnset => unset_iff hDoc hUnset⟩

def numberKey : Key :=
  .number ⟨"123", by decide⟩

/- A way named by a number, switched off. -/
def numberedWays : Doc where
  lines := ["ways:".toList, "  123: false".toList]
  crlf := false
  value :=
    .mapping
      [(.string "ways", .mapping [(numberKey, .bool false)])]

theorem numberedWays_parsed :
    numberedWays.Parsed where
  root := ⟨_, rfl⟩
  distinct := by
    refine
      distinct_mapping_iff.mpr ⟨List.nodup_singleton _, ?_⟩
    intro e hMem
    cases List.mem_singleton.mp hMem
    refine
      distinct_mapping_iff.mpr ⟨List.nodup_singleton _, ?_⟩
    intro e hMem
    cases List.mem_singleton.mp hMem
    exact .bool false

def oneWay
    (k : Key) : Value :=
  .mapping [(k, .bool true)]

theorem oneWay_distinct
    (k : Key) :
    (oneWay k).Distinct := by
  refine
    distinct_mapping_iff.mpr ⟨List.nodup_singleton _, ?_⟩
  intro e hMem
  cases List.mem_singleton.mp hMem
  exact .bool true

theorem numberedWays_edits_named :
    (∃ doc',
      numberedWays.set bareYaml ["ways"]
          (oneWay (.string "a/b")) = .ok doc' ∧
        numberedWays.Names doc' ["ways"]
          (oneWay (.string "a/b"))) ∧
      ∃ had doc',
        numberedWays.unset bareYaml ["ways", "123"] =
            .ok (had, doc') ∧
          numberedWays.Lacks doc' ["ways", "123"] := by
  have hSets :
      (numberedWays.set bareYaml ["ways"]
        (oneWay (.string "a/b"))).isOk = true := by
    decide
  have hUnsets :
      (numberedWays.unset bareYaml
        ["ways", "123"]).isOk = true := by
    decide
  constructor
  · cases hSet :
      numberedWays.set bareYaml ["ways"]
        (oneWay (.string "a/b")) with
    | error e =>
        rw [hSet] at hSets
        cases hSets
    | ok doc' =>
        exact
          ⟨doc', rfl,
            (edits_named bareYaml numberedWays
              numberedWays_parsed ["ways"]).1 _ _
                (oneWay_distinct _) (by decide)
                hSet⟩
  · cases hUnset :
      numberedWays.unset bareYaml ["ways", "123"] with
    | error e =>
        rw [hUnset] at hUnsets
        cases hUnsets
    | ok out =>
        exact
          ⟨out.1, out.2, rfl,
            ((edits_named bareYaml numberedWays
              numberedWays_parsed ["ways", "123"]).2
                out.1 out.2 hUnset).mp (by decide)⟩

/-
  The way is switched on under its number and then removed,
  since the wanted mapping has no text key "123".
-/
theorem not_edits_named :
    ¬ ∀ (y : Yaml) (doc doc' : Doc) (path : List String)
        (v : Value),
      doc.Parsed → v.Distinct →
        doc.set y path v = .ok doc' →
          doc.Names doc' path v := by
  intro hAll
  have hLost :
      (match
        numberedWays.set bareYaml ["ways"] (oneWay numberKey)
      with
      | .ok doc' => !doc'.holds ["ways"] (oneWay numberKey)
      | .error _ => false) = true := by
    decide
  cases hSet :
      numberedWays.set bareYaml ["ways"]
        (oneWay numberKey) with
  | error e =>
      rw [hSet] at hLost
      cases hLost
  | ok doc' =>
      rw [hSet] at hLost
      have hNames :=
        hAll bareYaml numberedWays doc' ["ways"]
          (oneWay numberKey) numberedWays_parsed
          (oneWay_distinct _) hSet
      dsimp only at hLost
      rw [hNames.held] at hLost
      cases hLost

end YamlEdit
