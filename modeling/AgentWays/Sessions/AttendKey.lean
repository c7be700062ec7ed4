import AgentWays.Sessions.Slug
import Mathlib.Data.Nat.Digits.Lemmas
import Mathlib.Data.List.DropRight

/-
  What a project's key tells of its path.

  The slug is the part before the last dash, and the hash
  the part after it. Two paths share a key where they share
  both, and a hash is shared up to its sign.

  Main declarations:
    * `Sessions.attendKeySlug_attendKey`
    * `Sessions.attendKey_eq_iff`
    * `Sessions.attendKeys`
-/

------------------------------------------------------------
-- Digits
------------------------------------------------------------

namespace Sessions

/- A character of a key. -/
def KeyChar
    (c : Char) : Prop :=
  c.isAlphanum = true ∨ c = '-'

theorem digit_inj :
    ∀ d < 36, ∀ e < 36,
      digits.getD d '0' = digits.getD e '0' → d = e := by
  decide

theorem isAlphanum_digit :
    ∀ d < 36, (digits.getD d '0').isAlphanum = true := by
  decide

theorem mem_digits
    {n d : Nat}
    (hMember : d ∈ Nat.digits 36 n) :
    d < 36 :=
  Nat.digits_lt_base (by decide) hMember

theorem map_digits_inj
    {ds es : List Nat}
    (hDs : ∀ d ∈ ds, d < 36)
    (hEs : ∀ e ∈ es, e < 36)
    (hSame :
      ds.map (fun d => digits.getD d '0') =
        es.map (fun d => digits.getD d '0')) :
    ds = es := by
  induction ds generalizing es with
  | nil => exact (List.map_eq_nil_iff.mp hSame.symm).symm
  | cons d ds ih =>
      cases es with
      | nil => cases hSame
      | cons e es =>
          injection hSame with hHead hTail
          have hFirst :=
            digit_inj d (hDs d List.mem_cons_self) e
              (hEs e List.mem_cons_self) hHead
          have hRest :=
            ih (fun x hX => hDs x (List.mem_cons_of_mem _ hX))
              (fun x hX => hEs x (List.mem_cons_of_mem _ hX))
              hTail
          rw [hFirst, hRest]

/- The digits of a number, the first digit first. -/
theorem toList_base36
    {n : UInt32}
    (hPos : n ≠ 0) :
    (base36 n).toList =
      ((Nat.digits 36 n.toNat).map
        (fun d => digits.getD d '0')).reverse := by
  unfold base36
  rw [if_neg hPos, String.toList_ofList]

theorem isAlphanum_base36
    {n : UInt32} :
    ∀ c ∈ (base36 n).toList, c.isAlphanum = true := by
  intro c hMember
  by_cases hZero : n = 0
  · rw [hZero] at hMember
    change c ∈ "0".toList at hMember
    simp only [String.reduceToList, List.mem_singleton]
      at hMember
    rw [hMember]
    rfl
  · rw [toList_base36 hZero, List.mem_reverse] at hMember
    rcases List.mem_map.mp hMember with ⟨d, hDigit, rfl⟩
    exact isAlphanum_digit d (mem_digits hDigit)

theorem toNat_ne_zero
    {n : UInt32}
    (hPos : n ≠ 0) :
    n.toNat ≠ 0 := by
  intro hZero
  exact hPos (UInt32.toNat_inj.mp hZero)

theorem base36_ne_empty
    (n : UInt32) :
    base36 n ≠ "" := by
  intro hEmpty
  by_cases hZero : n = 0
  · rw [hZero] at hEmpty
    exact absurd hEmpty (by decide)
  · have hNil := congrArg String.toList hEmpty
    rw [toList_base36 hZero] at hNil
    have hDigits :=
      List.map_eq_nil_iff.mp (List.reverse_eq_nil_iff.mp hNil)
    rw [Nat.digits_eq_nil_iff_eq_zero] at hDigits
    exact toNat_ne_zero hZero hDigits

/- Digits tell the number: none is written with a leading zero. -/
theorem base36_inj
    {n m : UInt32}
    (hSame : base36 n = base36 m) :
    n = m := by
  have hZeros :
      ∀ k : UInt32, k ≠ 0 → base36 k ≠ base36 0 := by
    intro k hPos hZero
    have hNat := toNat_ne_zero hPos
    have hLast := Nat.getLast_digit_ne_zero 36 hNat
    have hChars := congrArg String.toList hZero
    rw [toList_base36 hPos] at hChars
    change _ = "0".toList at hChars
    have hMap :=
      (List.reverse_eq_iff.mp hChars).trans
        (by rfl : _ = ['0'])
    rcases List.map_eq_singleton_iff.mp hMap with
      ⟨d, hDigits, hDigit⟩
    have hBound : d < 36 :=
      mem_digits (n := k.toNat) (by rw [hDigits]; simp)
    have hNone : d = 0 :=
      digit_inj d hBound 0 (by decide) hDigit
    simp [hDigits, hNone] at hLast
  by_cases hN : n = 0
  · by_cases hM : m = 0
    · rw [hN, hM]
    · rw [hN] at hSame
      exact absurd hSame.symm (hZeros m hM)
  · by_cases hM : m = 0
    · rw [hM] at hSame
      exact absurd hSame (hZeros n hN)
    · have hChars := congrArg String.toList hSame
      rw [toList_base36 hN, toList_base36 hM] at hChars
      have hMap := List.reverse_injective hChars
      have hDigits :
          Nat.digits 36 n.toNat = Nat.digits 36 m.toNat :=
        map_digits_inj (fun _ hDigit => mem_digits hDigit)
          (fun _ hDigit => mem_digits hDigit) hMap
      exact UInt32.toNat_inj.mp (Nat.digits_inj_iff.mp hDigits)

end Sessions

------------------------------------------------------------
-- Signs
------------------------------------------------------------

namespace Sessions

theorem toNat_unsignedAbs
    (h : Int32) :
    (unsignedAbs h).toNat = h.toInt.natAbs := by
  have hInt :
      h.toInt =
        if 2 * h.toBitVec.toNat < 2 ^ 32 then
          (h.toBitVec.toNat : Int)
        else (h.toBitVec.toNat : Int) - (2 ^ 32 : Nat) :=
    BitVec.toInt_eq_toNat_cond h.toBitVec
  have hBound : h.toBitVec.toNat < 2 ^ 32 := h.toBitVec.isLt
  have hSelf : h.toUInt32.toNat = h.toBitVec.toNat := rfl
  have hNeg :
      (-h).toUInt32.toNat =
        (2 ^ 32 - h.toBitVec.toNat) % 2 ^ 32 := by
    change (-h).toBitVec.toNat = _
    rw [Int32.toBitVec_neg, BitVec.toNat_neg]
  have hSign : h < 0 ↔ h.toInt < 0 := Int32.lt_iff_toInt_lt
  unfold unsignedAbs
  split
  · rename_i hLt
    rw [hSign] at hLt
    rw [hNeg]
    split at hInt <;> omega
  · rename_i hLe
    rw [hSign] at hLe
    rw [hSelf]
    split at hInt <;> omega

/- A hash is kept up to its sign. -/
theorem unsignedAbs_eq_iff
    {h h' : Int32} :
    unsignedAbs h = unsignedAbs h' ↔ h = h' ∨ h = -h' := by
  rw [← UInt32.toNat_inj, toNat_unsignedAbs, toNat_unsignedAbs,
    Int.natAbs_eq_natAbs_iff]
  have hNeg : (-h').toInt = (-h'.toInt).bmod (2 ^ 32) :=
    Int32.toInt_neg h'
  have hLow := Int32.minValue_le_toInt h'
  have hHigh := Int32.toInt_le h'
  have hLow' := Int32.minValue_le_toInt h
  have hHigh' := Int32.toInt_le h
  rw [Int32.toInt_minValue] at hLow hLow'
  rw [Int32.toInt_maxValue] at hHigh hHigh'
  rw [← Int32.toInt_inj, ← Int32.toInt_inj, hNeg]
  constructor
  · rintro (hSame | hOpposite)
    · exact Or.inl hSame
    · refine Or.inr ?_
      rw [hOpposite, Int.bmod_eq_of_le] <;> omega
  · rintro (hSame | hOpposite)
    · exact Or.inl hSame
    · by_cases hMin : h'.toInt = -2 ^ 31
      · refine Or.inl ?_
        rw [hOpposite, hMin]
        rfl
      · refine Or.inr ?_
        rw [hOpposite, Int.bmod_eq_of_le] <;> omega

end Sessions

------------------------------------------------------------
-- Keys
------------------------------------------------------------

namespace Sessions

variable {p q : String}

/- What stands after the last of a character is split off. -/
theorem rsplitOnce_append
    {head tail : String}
    {c : Char}
    (hTail : c ∉ tail.toList) :
    RustText.rsplitOnce
        (head ++ String.singleton c ++ tail) c =
      some (head, tail) := by
  have hChars :
      (head ++ String.singleton c ++ tail).toList.reverse =
        tail.toList.reverse ++ c :: head.toList.reverse := by
    simp
  have hPass :
      ∀ d ∈ tail.toList.reverse, decide (d ≠ c) = true := by
    intro d hMember
    apply decide_eq_true
    intro hSame
    rw [hSame, List.mem_reverse] at hMember
    exact hTail hMember
  unfold RustText.rsplitOnce
  rw [hChars, List.dropWhile_append_of_pos hPass,
    List.takeWhile_append_of_pos hPass,
    List.dropWhile_cons_of_neg (by simp),
    List.takeWhile_cons_of_neg (by simp)]
  simp

theorem dash_not_mem_base36
    {n : UInt32} :
    '-' ∉ (base36 n).toList := by
  intro hMember
  exact absurd (isAlphanum_base36 _ hMember) (by decide)

theorem keyChar_slugChars
    (p : String) :
    ∀ c ∈ p.toList.flatMap slugChar, KeyChar c := by
  intro c hMember
  rcases List.mem_flatMap.mp hMember with ⟨d, -, hSlug⟩
  unfold slugChar at hSlug
  split at hSlug
  · rename_i hAlnum
    rw [List.mem_singleton.mp hSlug]
    exact Or.inl hAlnum
  · exact Or.inr (List.mem_replicate.mp hSlug).2

theorem keyChar_append
    {s t : String}
    (hHead : ∀ c ∈ s.toList, KeyChar c)
    (hTail : ∀ c ∈ t.toList, c.isAlphanum = true) :
    ∀ c ∈ (s ++ "-" ++ t).toList, KeyChar c := by
  intro c hMember
  rw [String.toList_append, String.toList_append] at hMember
  rcases List.mem_append.mp hMember with hStart | hEnd
  · rcases List.mem_append.mp hStart with hSlug | hDash
    · exact hHead c hSlug
    · exact Or.inr (List.mem_singleton.mp hDash)
  · exact Or.inl (hTail c hEnd)

theorem keyChar_slug
    (p : String) :
    ∀ c ∈ (projectSlug p).toList, KeyChar c := by
  have hChars := keyChar_slugChars p
  unfold projectSlug
  simp only
  split
  · rw [String.toList_ofList]
    exact hChars
  · apply keyChar_append _ isAlphanum_base36
    intro c hMember
    rw [String.toList_ofList] at hMember
    exact hChars c (List.mem_of_mem_take hMember)

theorem attendKey_eq
    (hPath : p ≠ "") :
    attendKey p =
      projectSlug p ++ "-" ++
        base36 (unsignedAbs (pathHash p)) := by
  unfold attendKey
  rw [if_neg hPath]

theorem rsplitOnce_attendKey
    (hPath : p ≠ "") :
    RustText.rsplitOnce (attendKey p) '-' =
      some
        (projectSlug p,
          base36 (unsignedAbs (pathHash p))) := by
  have hDash : "-" = String.singleton '-' := rfl
  rw [attendKey_eq hPath, hDash]
  exact rsplitOnce_append dash_not_mem_base36

/- A key gives back the slug, cut or not. -/
theorem attendKeySlug_attendKey
    (hPath : p ≠ "") :
    attendKeySlug (attendKey p) = some (projectSlug p) := by
  have hChars :
      (attendKey p).toList.all
          (fun c => c.isAlphanum || c == '-') = true := by
    rw [attendKey_eq hPath]
    apply List.all_eq_true.mpr
    intro c hMember
    have hKey :=
      keyChar_append (keyChar_slug p) isAlphanum_base36 c
        hMember
    simpa [KeyChar] using hKey
  unfold attendKeySlug
  rw [if_pos hChars, rsplitOnce_attendKey hPath]
  simp only
  rw [if_neg (base36_ne_empty _)]

/- Paths share a key that share a slug and, up to sign, a hash. -/
theorem attendKey_eq_iff
    (hP : p ≠ "")
    (hQ : q ≠ "") :
    attendKey p = attendKey q ↔
      projectSlug p = projectSlug q ∧
        (pathHash p = pathHash q ∨
          pathHash p = -pathHash q) := by
  rw [← unsignedAbs_eq_iff]
  constructor
  · intro hSame
    have hSplit := rsplitOnce_attendKey hP
    rw [hSame, rsplitOnce_attendKey hQ] at hSplit
    have hParts := Prod.mk.inj (Option.some.inj hSplit)
    exact ⟨hParts.1.symm, base36_inj hParts.2.symm⟩
  · rintro ⟨hSlug, hHash⟩
    rw [attendKey_eq hP, attendKey_eq hQ, hSlug, hHash]

/-
  What a key tells of paths that are not empty: their slug,
  and their hash up to its sign.
-/
theorem attendKeys :
    (∀ p q, p ≠ "" → q ≠ "" →
      (attendKey p = attendKey q ↔
        projectSlug p = projectSlug q ∧
          (pathHash p = pathHash q ∨
            pathHash p = -pathHash q))) ∧
      ∀ p, p ≠ "" →
        attendKeySlug (attendKey p) = some (projectSlug p) :=
  ⟨fun _ _ hP hQ => attendKey_eq_iff hP hQ,
    fun _ hP => attendKeySlug_attendKey hP⟩

theorem attendKeys_mapped :
    attendKey "/srv/my proj" ≠ attendKey "/srv/my-proj" ∧
      attendKeySlug (attendKey "/srv/my proj") =
        some "-srv-my-proj" := by
  have hKeys :=
    attendKeys.1 "/srv/my proj" "/srv/my-proj" (by decide)
      (by decide)
  have hSlug := attendKeys.2 "/srv/my proj" (by decide)
  rw [Ne, hKeys, hSlug]
  decide

/-
  Two marks and their sum: a dot and a space make the hash
  that a dash and a question mark do.
-/
theorem not_attendKeys_distinct :
    ¬ ∀ p q, p ≠ "" → q ≠ "" → p ≠ q →
      attendKey p ≠ attendKey q := by
  intro hClaim
  apply
    hClaim "/srv/a. b" "/srv/a-?b" (by decide) (by decide)
      (by decide)
  decide

end Sessions
