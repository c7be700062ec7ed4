import AgentWays.Lib.TextSpec
import AgentWays.Scan.OrderSpec
import AgentWays.Scan.Sentences
import Mathlib.Algebra.Order.BigOperators.Group.List
import Mathlib.Algebra.Order.Ring.Nat

/-
  What a reduction gives: some of the sentences in their
  order, or some of the tokens, and something to match on
  whenever the text has it.

  The estimate of a text put together is no sum of the
  estimates of its parts: the characters of the parts are
  divided one by one, and the spaces between them are not
  counted. So a reduction is in its budget when what it
  chose is short enough put together.

  Key definitions include:
    * `Scan.Letters.Sound`
    * `Scan.Roomy`
    * `Scan.Reduces`

  Main declarations:
    * `Scan.sublist_heaviest`
    * `Scan.sublist_admitted`
    * `Scan.reduces_iff`
-/

------------------------------------------------------------
-- Estimates
------------------------------------------------------------

namespace Scan

open RustText (isWhitespace)

def wordCount
    (s : Text) : Nat :=
  (Words.words isWhitespace s).length

def cjkCount
    (s : Text) : Nat :=
  s.countP isCjk

/- How long texts are with a space between two. -/
def joinedLength
    (texts : List Text) : Nat :=
  (texts.map List.length).sum + (texts.length - 1)

theorem approxTokens_le_iff
    {s : Text}
    {budget : Nat} :
    approxTokens s ≤ budget ↔
      wordCount s ≤ budget ∧ s.length / charsPerToken ≤ budget ∧
        cjkCount s ≤ budget := by
  unfold approxTokens wordCount cjkCount
  rw [Nat.max_le, Nat.max_le, and_assoc]

theorem isCjk_space :
    isCjk ' ' = false := by
  decide

theorem wordCount_join
    (texts : List Text) :
    wordCount (join texts) = (texts.map wordCount).sum := by
  unfold wordCount join
  rw [Words.words_intercalate (by decide), List.length_flatMap]

theorem join_cons_cons
    (s t : Text)
    (rest : List Text) :
    join (s :: t :: rest) = s ++ ' ' :: join (t :: rest) := by
  unfold join
  rw [List.intercalate_cons_cons, List.append_assoc]
  rfl

theorem cjkCount_join
    (texts : List Text) :
    cjkCount (join texts) = (texts.map cjkCount).sum := by
  induction texts with
  | nil => rfl
  | cons s rest ih =>
      cases rest with
      | nil => simp [join, List.intercalate_singleton]
      | cons t more =>
          have hCons := join_cons_cons s t more
          unfold cjkCount at ih ⊢
          rw [hCons, List.countP_append, List.countP_cons, ih,
            isCjk_space]
          simp

theorem length_join
    (texts : List Text) :
    (join texts).length = joinedLength texts := by
  unfold joinedLength
  induction texts with
  | nil => rfl
  | cons s rest ih =>
      cases rest with
      | nil => simp [join, List.intercalate_singleton]
      | cons t more =>
          rw [join_cons_cons, List.length_append, List.length_cons,
            ih]
          simp only [List.map_cons, List.sum_cons,
            List.length_cons]
          omega

theorem wordCount_le
    (s : Text) :
    wordCount s ≤ approxTokens s :=
  (approxTokens_le_iff.mp (Nat.le_refl _)).1

theorem cjkCount_le
    (s : Text) :
    cjkCount s ≤ approxTokens s :=
  (approxTokens_le_iff.mp (Nat.le_refl _)).2.2

end Scan

------------------------------------------------------------
-- Places
------------------------------------------------------------

namespace Scan

/- What stands at growing places of a list is a part of it. -/
theorem sublist_of_places
    {α : Type}
    {xs : List α}
    {places : List (Nat × α)}
    (hSorted : places.Pairwise (fun p q => p.1 < q.1))
    (hAt : ∀ p ∈ places, xs[p.1]? = some p.2) :
    (places.map Prod.snd).Sublist xs := by
  have hFrom (k : Nat) (hLow : ∀ p ∈ places, k ≤ p.1) :
      (places.map Prod.snd).Sublist (xs.drop k) := by
    induction places generalizing k with
    | nil => exact List.nil_sublist _
    | cons p rest ih =>
        have hFirst := hAt p List.mem_cons_self
        have hLe := hLow p List.mem_cons_self
        have hLater :=
          ih (List.pairwise_cons.mp hSorted).2
            (fun q hMem => hAt q (List.mem_cons_of_mem p hMem))
            (p.1 + 1)
            (fun q hMem => (List.pairwise_cons.mp hSorted).1 q hMem)
        rcases List.getElem?_eq_some_iff.mp hFirst with ⟨hLt, hEq⟩
        have hDrop :
            xs.drop p.1 = p.2 :: xs.drop (p.1 + 1) := by
          rw [List.drop_eq_getElem_cons hLt, hEq]
        have hHere :
            ((p :: rest).map Prod.snd).Sublist (xs.drop p.1) := by
          rw [hDrop, List.map_cons]
          exact hLater.cons_cons p.2
        have hSuffix : (xs.drop p.1).Sublist (xs.drop k) := by
          rw [show p.1 = k + (p.1 - k) by omega, ← List.drop_drop]
          exact List.drop_sublist _ _
        exact hHere.trans hSuffix
  exact hFrom 0 (fun p _ => Nat.zero_le p.1)

theorem mapIdx_fst
    {α : Type}
    {f : Nat → α → Nat × α}
    (xs : List α)
    (hFst : ∀ i a, (f i a).1 = i) :
    (xs.mapIdx f).map Prod.fst = List.range xs.length := by
  apply List.ext_getElem
  · simp
  · intro i hLeft hRight
    simp [hFst]

end Scan

------------------------------------------------------------
-- The Heaviest Tokens
------------------------------------------------------------

namespace Scan

open RustText (isWhitespace)

/-
  What is relied on of the Unicode tables: a letter or digit
  is no whitespace, and lower case keeps a text's words.
-/
structure Letters.Sound
    (letters : Letters) : Prop where
  alphanumeric :
    ∀ c, letters.isAlphanumeric c = true → isWhitespace c = false
  lower_ne_nil : ∀ t, t ≠ [] → letters.toLowercase t ≠ []
  lower_bare :
    ∀ t, (∀ c ∈ t, isWhitespace c = false) →
      ∀ c ∈ letters.toLowercase t, isWhitespace c = false

variable {W : Type} [LinearOrder W]
variable {letters : Letters} {weighing : Weighing W}

/- A token has characters, and no whitespace among them. -/
theorem token_bare
    (hSound : letters.Sound)
    {s t : Text}
    (hMem : t ∈ tokenize letters s) :
    t ≠ [] ∧ ∀ c ∈ t, isWhitespace c = false := by
  unfold tokenize at hMem
  rcases List.mem_map.mp (List.mem_filter.mp hMem).1 with
    ⟨part, hPart, rfl⟩
  rcases List.mem_filter.mp hPart with ⟨hSplit, hNonempty⟩
  refine
    ⟨hSound.lower_ne_nil part (by simpa using hNonempty),
      hSound.lower_bare part ?_⟩
  intro c hIn
  have hSeparator := Words.not_of_mem_splitOnP hSplit c hIn
  unfold isSeparator at hSeparator
  by_cases hLetter : letters.isAlphanumeric c = true
  · exact hSound.alphanumeric c hLetter
  · simp only [Bool.not_eq_true] at hLetter
    rw [hLetter] at hSeparator
    by_cases hDash : c = '-'
    · rw [hDash]
      decide
    · have hLow : c = '_' := by
        simpa [hDash] using hSeparator
      rw [hLow]
      decide

theorem wordCount_token
    (hSound : letters.Sound)
    {s t : Text}
    (hMem : t ∈ tokenize letters s) :
    wordCount t = 1 := by
  have hBare := token_bare hSound hMem
  unfold wordCount
  rw [Words.words_of_bare hBare.1 hBare.2]
  rfl

/- The heaviest tokens are some of them, in their order. -/
theorem sublist_heaviest
    (weighing : Weighing W)
    (tokens : List Text)
    (budget : Nat) :
    (heaviest weighing tokens budget).Sublist tokens ∧
      (heaviest weighing tokens budget).length =
        min budget tokens.length := by
  unfold heaviest
  dsimp only
  generalize hIndexed :
    sortBy
      (fun a b =>
        compare
          ((weighing.softmax (countFrequencies tokens) b.2).getD
            weighing.zero)
          ((weighing.softmax (countFrequencies tokens) a.2).getD
            weighing.zero))
      (tokens.mapIdx (fun i t => (i, t))) = indexed
  have hPerm : indexed.Perm (tokens.mapIdx (fun i t => (i, t))) := by
    rw [← hIndexed]
    exact perm_sortBy _ _
  have hFst : (indexed.map Prod.fst).Perm (List.range tokens.length) := by
    have hMap := hPerm.map Prod.fst
    rwa [mapIdx_fst tokens (fun _ _ => rfl)] at hMap
  let picked := (indexed.take budget).map Prod.fst
  have hPicked : picked.Sublist (indexed.map Prod.fst) :=
    (List.take_sublist budget indexed).map Prod.fst
  have hNodup : picked.Nodup :=
    (hFst.nodup_iff.mpr List.nodup_range).sublist hPicked
  have hSorted :
      (sortBy compare picked).Pairwise (fun a b => a < b) :=
    sortBy_pairwise (fun n => n) (fun _ _ => compare_gt_iff_gt)
      (by simpa using hNodup)
  have hBound {i : Nat} (hMem : i ∈ sortBy compare picked) :
      i < tokens.length := by
    have hIn := hPicked.subset (mem_sortBy.mp hMem)
    exact List.mem_range.mp (hFst.mem_iff.mp hIn)
  refine ⟨?_, ?_⟩
  · have hPlaces :=
      @sublist_of_places _ tokens
        ((sortBy compare picked).map
          (fun i => (i, tokens.getD i [])))
        (by
          rw [List.pairwise_map]
          exact hSorted)
        (by
          intro p hMem
          rcases List.mem_map.mp hMem with ⟨i, hIndex, rfl⟩
          have hLt := hBound hIndex
          rw [List.getD_eq_getElem?_getD,
            List.getElem?_eq_getElem hLt]
          rfl)
    rw [List.map_map] at hPlaces
    exact hPlaces
  · have hLength : indexed.length = tokens.length := by
      rw [hPerm.length_eq, List.length_mapIdx]
    rw [List.length_map, (perm_sortBy _ _).length_eq,
      List.length_map, List.length_take, hLength]

/- The words of the heaviest tokens stay within the budget. -/
theorem wordCount_heaviest
    (hSound : letters.Sound)
    (s : Text)
    (budget : Nat) :
    wordCount
        (join (heaviest weighing (tokenize letters s) budget)) ≤
      budget := by
  have hSub := sublist_heaviest weighing (tokenize letters s) budget
  have hOnes :
      (heaviest weighing (tokenize letters s) budget).map wordCount =
        List.replicate (min budget (tokenize letters s).length) 1 := by
    rw [List.eq_replicate_iff]
    refine ⟨?_, ?_⟩
    · rw [List.length_map, hSub.2]
    · intro n hMem
      rcases List.mem_map.mp hMem with ⟨t, hToken, rfl⟩
      exact wordCount_token hSound (hSub.1.subset hToken)
  rw [wordCount_join, hOnes]
  simp

end Scan

------------------------------------------------------------
-- The Sentences Admitted
------------------------------------------------------------

namespace Scan

variable {W : Type}

theorem admit_sublist
    (budget accumulated : Nat)
    (entries : List (Nat × Text × W)) :
    (admitFrom budget accumulated entries).Sublist
      (entries.map (fun e => (e.1, e.2.1))) := by
  induction entries generalizing accumulated with
  | nil => exact List.Sublist.refl _
  | cons e rest ih =>
      unfold admitFrom
      split
      · exact (ih accumulated).cons _
      · exact (ih _).cons_cons _

/- The estimates of what is admitted add up to the budget. -/
theorem sum_admit_le
    {budget accumulated : Nat}
    {entries : List (Nat × Text × W)}
    (hLe : accumulated ≤ budget) :
    accumulated +
        ((admitFrom budget accumulated entries).map
          (fun e => approxTokens e.2)).sum ≤
      budget := by
  induction entries generalizing accumulated with
  | nil => simpa [admitFrom] using hLe
  | cons e rest ih =>
      unfold admitFrom
      split
      · exact ih hLe
      · rename_i hFits
        have hRest := ih (Nat.not_lt.mp hFits)
        rw [List.map_cons, List.sum_cons]
        dsimp only
        omega

theorem admit_eq_nil_iff
    {budget accumulated : Nat}
    {entries : List (Nat × Text × W)} :
    admitFrom budget accumulated entries = [] ↔
      ∀ e ∈ entries, budget < accumulated + approxTokens e.2.1 := by
  induction entries with
  | nil => simp [admitFrom]
  | cons e rest ih =>
      unfold admitFrom
      rw [List.forall_mem_cons]
      split
      · rename_i hOver
        rw [ih]
        exact ⟨fun hRest => ⟨hOver, hRest⟩, fun hAll => hAll.2⟩
      · rename_i hFits
        exact iff_of_false (by simp) (fun hAll => hFits hAll.1)

variable [LinearOrder W]
variable (letters : Letters) (weighing : Weighing W)

theorem scored_perm
    (input : Text)
    (sentences : List Text) :
    ((scored letters weighing input sentences).map
      (fun e => (e.1, e.2.1))).Perm
        (sentences.mapIdx (fun i s => (i, s))) := by
  refine
    ((perm_sortBy _ _).map
      (fun e : Nat × Text × W => (e.1, e.2.1))).trans ?_
  apply List.Perm.of_eq
  apply List.ext_getElem
  · simp
  · intro i hLeft hRight
    simp

theorem getElem?_of_mem_scored
    {input : Text}
    {sentences : List Text}
    {p : Nat × Text}
    (hMem :
      p ∈ (scored letters weighing input sentences).map
        (fun e => (e.1, e.2.1))) :
    sentences[p.1]? = some p.2 := by
  have hIn :=
    (scored_perm letters weighing input sentences).mem_iff.mp hMem
  rcases List.mem_mapIdx.mp hIn with ⟨i, hLt, rfl⟩
  exact List.getElem?_eq_getElem hLt

/- The sentences admitted are some of them, in their order. -/
theorem sublist_admitted
    (input : Text)
    (sentences : List Text)
    (budget : Nat) :
    (admitted letters weighing input sentences budget).Sublist
      sentences := by
  let entries := scored letters weighing input sentences
  have hSub := admit_sublist budget 0 entries
  have hFst :
      ((entries.map (fun e => (e.1, e.2.1))).map Prod.fst).Nodup := by
    have hMap :=
      (scored_perm letters weighing input sentences).map Prod.fst
    rw [mapIdx_fst sentences (fun _ _ => rfl)] at hMap
    exact hMap.nodup_iff.mpr List.nodup_range
  apply sublist_of_places
  · exact
      sortBy_pairwise Prod.fst (fun _ _ => compare_gt_iff_gt)
        (hFst.sublist (hSub.map Prod.fst))
  · intro p hMem
    apply getElem?_of_mem_scored letters weighing
    exact hSub.subset (mem_sortBy.mp hMem)

theorem sum_admitted_le
    (input : Text)
    (sentences : List Text)
    (budget : Nat) :
    ((admitted letters weighing input sentences budget).map
      approxTokens).sum ≤ budget := by
  have hSum :=
    @sum_admit_le _ _ _
      (scored letters weighing input sentences)
      (Nat.zero_le budget)
  have hPerm :=
    (perm_sortBy (fun a b : Nat × Text => compare a.1 b.1)
      (admitFrom budget 0
        (scored letters weighing input sentences))).map
      (fun e => approxTokens e.2)
  unfold admitted
  rw [List.map_map]
  rw [Nat.zero_add, ← hPerm.sum_nat] at hSum
  exact hSum

theorem admitted_eq_nil_iff
    {input : Text}
    {sentences : List Text}
    {budget : Nat} :
    admitted letters weighing input sentences budget = [] ↔
      ¬ ∃ s ∈ sentences, approxTokens s ≤ budget := by
  have hPerm := scored_perm letters weighing input sentences
  unfold admitted
  rw [List.map_eq_nil_iff, ← List.length_eq_zero_iff,
    (perm_sortBy _ _).length_eq, List.length_eq_zero_iff,
    admit_eq_nil_iff]
  constructor
  · rintro hNone ⟨s, hMem, hFits⟩
    rcases List.mem_iff_getElem.mp hMem with ⟨i, hLt, rfl⟩
    have hPlace :
        (i, sentences[i]) ∈ sentences.mapIdx (fun i s => (i, s)) :=
      List.mem_mapIdx.mpr ⟨i, hLt, rfl⟩
    rcases List.mem_map.mp (hPerm.mem_iff.mpr hPlace) with
      ⟨e, hEntry, hSame⟩
    have hOver := hNone e hEntry
    have hText : e.2.1 = sentences[i] := congrArg Prod.snd hSame
    rw [← hText] at hFits
    omega
  · intro hNone e hEntry
    by_contra hFits
    apply hNone
    have hAt :=
      getElem?_of_mem_scored letters weighing
        (List.mem_map_of_mem (f := fun e => (e.1, e.2.1)) hEntry)
    exact ⟨e.2.1, List.mem_of_getElem? hAt, by omega⟩

theorem heaviestSentence_mem
    {input : Text}
    {sentences : List Text}
    (hSome : sentences ≠ []) :
    heaviestSentence letters weighing input sentences ∈ sentences := by
  have hPerm := scored_perm letters weighing input sentences
  unfold heaviestSentence
  cases hEntries : scored letters weighing input sentences with
  | nil =>
      have hLength := hPerm.length_eq
      rw [hEntries, List.length_mapIdx] at hLength
      exact absurd (List.length_eq_zero_iff.mp hLength.symm) hSome
  | cons e rest =>
      have hAt :=
        @getElem?_of_mem_scored _ _ letters weighing input
          sentences (e.1, e.2.1) (by
            rw [hEntries]
            exact List.mem_cons_self)
      exact List.mem_of_getElem? hAt

end Scan

------------------------------------------------------------
-- The Budget
------------------------------------------------------------

namespace Scan

open RustText (isWhitespace)

variable {W : Type} [LinearOrder W]

/-
  Tokens that stay in the budget put together, or a first
  part of a text that has no tokens.
-/
def TokensRoomy
    (letters : Letters)
    (weighing : Weighing W)
    (text : Text)
    (budget : Nat) : Prop :=
  let tokens := tokenize letters text
  if tokens.isEmpty then
    let cut := text.take (budget * charsPerToken)
    wordCount cut ≤ budget ∧ cjkCount cut ≤ budget
  else
    let picked := heaviest weighing tokens budget
    joinedLength picked / charsPerToken ≤ budget ∧
      (picked.map cjkCount).sum ≤ budget

/-
  A text that fits, sentences admitted that stay in the
  budget put together, or tokens that do.
-/
def Roomy
    (letters : Letters)
    (weighing : Weighing W)
    (input : Text)
    (budget : Nat) : Prop :=
  let trimmed := trim input
  approxTokens trimmed ≤ budget ∨
    ∃ sentences, splitSentences trimmed = some sentences ∧
      if sentences.length ≤ 1 then
        TokensRoomy letters weighing trimmed budget
      else if ∃ s ∈ sentences, approxTokens s ≤ budget then
        joinedLength
            (admitted letters weighing trimmed sentences budget) /
          charsPerToken ≤ budget
      else
        TokensRoomy letters weighing
          (heaviestSentence letters weighing trimmed sentences)
          budget

/- The text for the embedder, as it is meant to be. -/
structure Reduces
    (input : Text)
    (budget : Nat)
    (out : Text) : Prop where
  within : approxTokens out ≤ budget
  bare :
    (∃ c ∈ input, isWhitespace c = false) →
      ∃ c ∈ out, isWhitespace c = false
  sentences :
    ∀ sentences, splitSentences (trim input) = some sentences →
      2 ≤ sentences.length →
      budget < approxTokens (trim input) →
      (∃ s ∈ sentences, approxTokens s ≤ budget) →
        ∃ kept, kept.Sublist sentences ∧ out = join kept

variable {letters : Letters} {weighing : Weighing W}

theorem approxTokens_reduceByTokens
    (hSound : letters.Sound)
    {text : Text}
    {budget : Nat}
    (hBudget : 1 ≤ budget) :
    approxTokens (reduceByTokens letters weighing text budget) ≤
        budget ↔
      TokensRoomy letters weighing text budget := by
  unfold reduceByTokens TokensRoomy
  rw [if_neg (by omega)]
  dsimp only
  split
  · have hLength :
        (text.take (budget * charsPerToken)).length /
          charsPerToken ≤ budget := by
      rw [List.length_take]
      unfold charsPerToken
      omega
    rw [approxTokens_le_iff]
    exact
      ⟨fun h => ⟨h.1, h.2.2⟩, fun h => ⟨h.1, hLength, h.2⟩⟩
  · have hWords :=
      @wordCount_heaviest _ _ _ weighing hSound text budget
    rw [approxTokens_le_iff, length_join, cjkCount_join]
    exact ⟨fun h => h.2, fun h => ⟨hWords, h⟩⟩

theorem approxTokens_admitted
    {input : Text}
    {sentences : List Text}
    {budget : Nat} :
    approxTokens
        (join (admitted letters weighing input sentences budget)) ≤
        budget ↔
      joinedLength
          (admitted letters weighing input sentences budget) /
        charsPerToken ≤ budget := by
  have hSum :=
    sum_admitted_le letters weighing input sentences budget
  rw [approxTokens_le_iff, wordCount_join, cjkCount_join,
    length_join]
  constructor
  · exact fun h => h.2.1
  · intro hLength
    exact
      ⟨(List.sum_le_sum (fun s _ => wordCount_le s)).trans hSum,
        hLength,
        (List.sum_le_sum (fun s _ => cjkCount_le s)).trans hSum⟩

/- A text cut or put together still has something in it. -/
theorem bare_of_startsBare
    {s : Text}
    (hBare : StartsBare s) :
    ∃ c ∈ s, isWhitespace c = false := by
  rcases hBare with ⟨c, rest, rfl, hNot⟩
  exact ⟨c, List.mem_cons_self, hNot⟩

theorem bare_join
    {texts : List Text}
    {t : Text}
    (hMem : t ∈ texts)
    (hBare : ∃ c ∈ t, isWhitespace c = false) :
    ∃ c ∈ join texts, isWhitespace c = false := by
  rcases hBare with ⟨c, hIn, hNot⟩
  refine ⟨c, ?_, hNot⟩
  induction texts with
  | nil => cases hMem
  | cons s rest ih =>
      cases rest with
      | nil =>
          rw [List.mem_singleton.mp hMem] at hIn
          simpa [join, List.intercalate_singleton] using hIn
      | cons next more =>
          rw [join_cons_cons]
          rcases List.mem_cons.mp hMem with rfl | hLater
          · exact List.mem_append_left _ hIn
          · exact
              List.mem_append_right _
                (List.mem_cons_of_mem _ (ih hLater))

theorem bare_reduceByTokens
    (hSound : letters.Sound)
    {text : Text}
    {budget : Nat}
    (hBudget : 1 ≤ budget)
    (hBare : StartsBare text) :
    ∃ c ∈ reduceByTokens letters weighing text budget,
      isWhitespace c = false := by
  unfold reduceByTokens
  rw [if_neg (by omega)]
  dsimp only
  split
  · rcases hBare with ⟨c, rest, rfl, hNot⟩
    have hPos : budget * charsPerToken = budget * 4 - 1 + 1 := by
      unfold charsPerToken
      omega
    rw [hPos, List.take_succ_cons]
    exact ⟨c, List.mem_cons_self, hNot⟩
  · rename_i hTokens
    have hSub :=
      sublist_heaviest weighing (tokenize letters text) budget
    have hSome :
        0 < (heaviest weighing (tokenize letters text) budget).length := by
      have hPos : 0 < (tokenize letters text).length := by
        rw [List.isEmpty_iff] at hTokens
        exact List.length_pos_of_ne_nil hTokens
      omega
    rcases List.exists_mem_of_length_pos hSome with ⟨t, hMem⟩
    have hToken := token_bare hSound (hSub.1.subset hMem)
    rcases List.exists_mem_of_ne_nil t hToken.1 with ⟨c, hIn⟩
    exact bare_join hMem ⟨c, hIn, hToken.2 c hIn⟩

theorem roomy_of_fits
    {input : Text}
    {budget : Nat}
    (hFits : approxTokens (trim input) ≤ budget) :
    Roomy letters weighing input budget :=
  Or.inl hFits

theorem roomy_iff
    {input : Text}
    {budget : Nat}
    {sentences : List Text}
    (hOver : ¬ approxTokens (trim input) ≤ budget)
    (hSplit : splitSentences (trim input) = some sentences) :
    Roomy letters weighing input budget ↔
      if sentences.length ≤ 1 then
        TokensRoomy letters weighing (trim input) budget
      else if ∃ s ∈ sentences, approxTokens s ≤ budget then
        joinedLength
            (admitted letters weighing (trim input) sentences
              budget) /
          charsPerToken ≤ budget
      else
        TokensRoomy letters weighing
          (heaviestSentence letters weighing (trim input) sentences)
          budget := by
  unfold Roomy
  constructor
  · rintro (hFits | ⟨other, hOther, hHolds⟩)
    · exact absurd hFits hOver
    · rw [hSplit] at hOther
      cases hOther
      exact hHolds
  · intro hHolds
    exact Or.inr ⟨sentences, hSplit, hHolds⟩

/- What a reduction of sentences gives. -/
theorem reduceBySentences_spec
    (hSound : letters.Sound)
    {text : Text}
    {sentences : List Text}
    {budget : Nat}
    (hBudget : 1 ≤ budget)
    (hSome : sentences ≠ [])
    (hBare : ∀ s ∈ sentences, StartsBare s) :
    let out := reduceBySentences letters weighing text sentences budget
    (∃ c ∈ out, isWhitespace c = false) ∧
      ((∃ s ∈ sentences, approxTokens s ≤ budget) →
        ∃ kept, kept.Sublist sentences ∧ out = join kept) ∧
      (approxTokens out ≤ budget ↔
        if ∃ s ∈ sentences, approxTokens s ≤ budget then
          joinedLength
              (admitted letters weighing text sentences budget) /
            charsPerToken ≤ budget
        else
          TokensRoomy letters weighing
            (heaviestSentence letters weighing text sentences)
            budget) := by
  have hNone :=
    @admitted_eq_nil_iff _ _ letters weighing text sentences
      budget
  have hSub :=
    sublist_admitted letters weighing text sentences budget
  unfold reduceBySentences
  dsimp only
  by_cases hFits : ∃ s ∈ sentences, approxTokens s ≤ budget
  · have hKeep :
        admitted letters weighing text sentences budget ≠ [] :=
      fun hNil => hNone.mp hNil hFits
    rw [if_neg (by simpa using hKeep), if_pos hFits]
    refine
      ⟨?_, fun _ => ⟨_, hSub, rfl⟩, approxTokens_admitted⟩
    rcases List.exists_mem_of_ne_nil _ hKeep with ⟨s, hMem⟩
    exact
      bare_join hMem (bare_of_startsBare (hBare s (hSub.subset hMem)))
  · rw [if_pos (by simpa using hNone.mpr hFits), if_neg hFits]
    have hIn :=
      @heaviestSentence_mem _ _ letters weighing text _ hSome
    exact
      ⟨bare_reduceByTokens hSound hBudget (hBare _ hIn),
        fun hSome => absurd hSome hFits,
        approxTokens_reduceByTokens hSound hBudget⟩

theorem bare_of_trim
    {s : Text}
    (hBare : ∃ c ∈ s, isWhitespace c = false) :
    trim s ≠ [] := by
  intro hNil
  rcases hBare with ⟨c, hMem, hNot⟩
  rcases trim_split s with ⟨lead, trail, hSplit, hLead, hTrail⟩
  rw [hNil, List.append_nil] at hSplit
  rw [hSplit] at hMem
  rcases List.mem_append.mp hMem with hFirst | hLast
  · rw [hLead c hFirst] at hNot
    cases hNot
  · rw [hTrail c hLast] at hNot
    cases hNot

/- What a reduction gives, and when it is in its budget. -/
theorem reduceForEmbed_spec
    (hSound : letters.Sound)
    (input : Text)
    {budget : Nat}
    (hBudget : 1 ≤ budget) :
    ∃ out, reduceForEmbed letters weighing input budget = some out ∧
      (approxTokens out ≤ budget → Reduces input budget out) ∧
      (approxTokens out ≤ budget ↔
        Roomy letters weighing input budget) := by
  unfold reduceForEmbed
  dsimp only
  by_cases hEmpty : trim input = []
  · rw [if_pos (by simpa using hEmpty)]
    have hFits : approxTokens (trim input) ≤ budget := by
      rw [hEmpty]
      exact Nat.zero_le budget
    refine
      ⟨[], rfl, ?_, iff_of_true (Nat.zero_le budget)
        (roomy_of_fits hFits)⟩
    intro hWithin
    exact
      { within := hWithin
        bare := fun hBare => absurd hEmpty (bare_of_trim hBare)
        sentences := fun _ _ _ hOver =>
          absurd hFits (Nat.not_le.mpr hOver) }
  rw [if_neg (by simpa using hEmpty)]
  have hBare : StartsBare (trim input) := startsBare_trim hEmpty
  by_cases hFits : approxTokens (trim input) ≤ budget
  · rw [if_pos hFits]
    refine
      ⟨trim input, rfl, ?_, iff_of_true hFits (roomy_of_fits hFits)⟩
    intro hWithin
    exact
      { within := hWithin
        bare := fun _ => bare_of_startsBare hBare
        sentences := fun _ _ _ hOver =>
          absurd hFits (Nat.not_le.mpr hOver) }
  rw [if_neg hFits]
  rcases splitSentences_spec (trim input) with
    ⟨sentences, hSplit, hSpaced⟩
  rw [roomy_iff hFits hSplit, hSplit]
  simp only [Option.bind_eq_bind, Option.bind_some]
  by_cases hOne : sentences.length ≤ 1
  · rw [if_pos hOne, if_pos hOne]
    refine
      ⟨_, rfl, ?_, approxTokens_reduceByTokens hSound hBudget⟩
    intro hWithin
    exact
      { within := hWithin
        bare := fun _ => bare_reduceByTokens hSound hBudget hBare
        sentences := by
          intro other hOther hTwo
          rw [hSplit] at hOther
          cases hOther
          omega }
  · rw [if_neg hOne, if_neg hOne]
    have hSome : sentences ≠ [] := by
      rintro rfl
      exact hOne (Nat.zero_le 1)
    have hSpec :=
      @reduceBySentences_spec _ _ _ weighing hSound (trim input)
        _ _ hBudget hSome hSpaced.startsBare
    refine ⟨_, rfl, ?_, hSpec.2.2⟩
    intro hWithin
    exact
      { within := hWithin
        bare := fun _ => hSpec.1
        sentences := by
          intro other hOther _ _ hFit
          rw [hSplit] at hOther
          cases hOther
          exact hSpec.2.1 hFit }

/- ASCII letters, and tokens that weigh what they are counted. -/
def asciiLetters : Letters where
  isAlphanumeric := Char.isAlphanum
  toLowercase := List.map Char.toLower

def counts : Weighing Nat where
  softmax frequency t := some (frequency t)
  mean weights n := weights.sum / n
  zero := 0

theorem not_isWhitespace_of_letter
    {c : Char}
    (hLow : 48 ≤ c.toNat)
    (hHigh : c.toNat ≤ 122) :
    isWhitespace c = false := by
  unfold isWhitespace
  simp only [Bool.or_eq_false_iff, Bool.and_eq_false_iff,
    decide_eq_false_iff_not, beq_eq_false_iff_ne]
  omega

theorem toLower_bare
    {c : Char}
    (hBare : isWhitespace c = false) :
    isWhitespace c.toLower = false := by
  unfold Char.toLower
  split
  · rename_i hUpper
    simp only [ge_iff_le, UInt32.le_iff_toNat_le] at hUpper
    have hA : 'A'.val.toNat = 65 := rfl
    have hZ : 'Z'.val.toNat = 90 := rfl
    have hShift : ('a'.val - 'A'.val).toNat = 32 := rfl
    apply not_isWhitespace_of_letter <;>
      · unfold Char.toNat
        simp only [UInt32.toNat_add]
        omega
  · exact hBare

theorem asciiLetters_sound :
    asciiLetters.Sound where
  alphanumeric c hLetter := by
    have hRange : 48 ≤ c.toNat ∧ c.toNat ≤ 122 := by
      have hRanges := RustText.isAlphanum_iff.mp hLetter
      omega
    exact not_isWhitespace_of_letter hRange.1 hRange.2
  lower_ne_nil t hNe := by simpa [asciiLetters] using hNe
  lower_bare t hBare c hMem := by
    rcases List.mem_map.mp hMem with ⟨d, hIn, rfl⟩
    exact toLower_bare (hBare d hIn)

end Scan
