import Mathlib.Data.List.Basic
import Mathlib.Tactic.Common
import Mathlib.Algebra.GroupWithZero.Nat

/-
  Texts of characters, cut at byte offsets, and bytes read
  as a text.

  A cut is taken only where a character starts or the text
  ends, as slices of UTF-8 text are.

  Key definitions include:
    * `Utf8.size`
    * `Utf8.splitAt?`
    * `Utf8.charIndices`
    * `Utf8.lossy`

  Main declarations:
    * `Utf8.splitAt?_size`
    * `Utf8.find?_eq_some`
    * `Utf8.rfind?_eq_some`
-/

------------------------------------------------------------
-- Offsets
------------------------------------------------------------

namespace Utf8

/- How many bytes a text takes. -/
def size
    (s : List Char) : Nat :=
  (s.map Char.utf8Size).sum

/- A text cut at a byte offset, where a character starts. -/
def splitAt? : List Char → Nat → Option (List Char × List Char)
| s, 0 => some ([], s)
| [], _ + 1 => none
| c :: rest, n + 1 =>
    if c.utf8Size ≤ n + 1 then
      (splitAt? rest (n + 1 - c.utf8Size)).map
        (fun parts => (c :: parts.1, parts.2))
    else none

/- Each character, with the offset it starts at. -/
def charIndicesFrom
    (n : Nat) : List Char → List (Nat × Char)
| [] => []
| c :: rest => (n, c) :: charIndicesFrom (n + c.utf8Size) rest

def charIndices
    (s : List Char) : List (Nat × Char) :=
  charIndicesFrom 0 s

/- Where a character is first, and where it is last. -/
def find?
    (c : Char)
    (s : List Char) : Option Nat :=
  ((charIndices s).find? (fun e => e.2 = c)).map Prod.fst

def rfind?
    (c : Char)
    (s : List Char) : Option Nat :=
  ((charIndices s).reverse.find? (fun e => e.2 = c)).map
    Prod.fst

end Utf8

------------------------------------------------------------
-- Cuts
------------------------------------------------------------

namespace Utf8

@[simp] theorem size_nil : size [] = 0 := rfl

@[simp] theorem size_cons
    (c : Char)
    (s : List Char) :
    size (c :: s) = c.utf8Size + size s := by
  simp [size]

@[simp] theorem size_append
    (s t : List Char) :
    size (s ++ t) = size s + size t := by
  simp [size]

@[simp] theorem splitAt?_zero
    (s : List Char) :
    splitAt? s 0 = some ([], s) := by
  cases s <;> rfl

/- A text is cut where a first part of it ends. -/
theorem splitAt?_size
    (s t : List Char) :
    splitAt? (s ++ t) (size s) = some (s, t) := by
  induction s with
  | nil => simp
  | cons c rest ih =>
      have hPos := c.utf8Size_pos
      rw [List.cons_append, size_cons]
      cases hSize : c.utf8Size + size rest with
      | zero => omega
      | succ n =>
          have hLe : c.utf8Size ≤ n + 1 := by omega
          have hRest : n + 1 - c.utf8Size = size rest := by
            omega
          rw [splitAt?, if_pos hLe, hRest, ih]
          rfl

@[simp] theorem map_snd_charIndicesFrom
    (n : Nat)
    (s : List Char) :
    (charIndicesFrom n s).map Prod.snd = s := by
  induction s generalizing n with
  | nil => rfl
  | cons c rest ih => simp [charIndicesFrom, ih]

/- A character that a text has is looked up in its place. -/
theorem split_charIndicesFrom
    {n : Nat}
    {s : List Char}
    {earlier later : List (Nat × Char)}
    {e : Nat × Char}
    (hSplit : charIndicesFrom n s = earlier ++ e :: later) :
    s = earlier.map Prod.snd ++ e.2 :: later.map Prod.snd ∧
      e.1 = n + size (earlier.map Prod.snd) := by
  induction earlier generalizing n s with
  | nil =>
      cases s with
      | nil => cases hSplit
      | cons c rest =>
          rw [charIndicesFrom, List.nil_append,
            List.cons.injEq] at hSplit
          rcases hSplit with ⟨rfl, rfl⟩
          simp
  | cons d earlier ih =>
      cases s with
      | nil => cases hSplit
      | cons c rest =>
          rw [charIndicesFrom, List.cons_append,
            List.cons.injEq] at hSplit
          rcases hSplit with ⟨rfl, hRest⟩
          rcases ih hRest with ⟨rfl, hAt⟩
          refine ⟨by simp, ?_⟩
          rw [hAt, List.map_cons, size_cons, Nat.add_assoc]

theorem find?_eq_some
    {c : Char}
    {s : List Char}
    {n : Nat}
    (hFind : find? c s = some n) :
    ∃ before after,
      s = before ++ c :: after ∧ c ∉ before ∧
        n = size before := by
  unfold find? at hFind
  rcases Option.map_eq_some_iff.mp hFind with ⟨e, hE, rfl⟩
  rcases List.find?_eq_some_iff_append.mp hE with
    ⟨hC, earlier, later, hSplit, hNone⟩
  rcases split_charIndicesFrom hSplit with ⟨hText, hAt⟩
  have hC : e.2 = c := of_decide_eq_true hC
  refine
    ⟨earlier.map Prod.snd, later.map Prod.snd, ?_, ?_, ?_⟩
  · rw [hText, hC]
  · intro hMember
    rcases List.mem_map.mp hMember with ⟨d, hD, hSame⟩
    have hOther := hNone d hD
    simp [hSame] at hOther
  · rw [hAt, Nat.zero_add]

theorem find?_eq_none
    {c : Char}
    {s : List Char}
    (hFind : find? c s = none) :
    c ∉ s := by
  intro hMember
  rw [← map_snd_charIndicesFrom 0 s] at hMember
  rcases List.mem_map.mp hMember with ⟨e, hE, hSame⟩
  unfold find? at hFind
  rw [Option.map_eq_none_iff, List.find?_eq_none] at hFind
  exact hFind e hE (decide_eq_true hSame)

theorem rfind?_eq_some
    {c : Char}
    {s : List Char}
    {n : Nat}
    (hFind : rfind? c s = some n) :
    ∃ before after,
      s = before ++ c :: after ∧ c ∉ after ∧
        n = size before := by
  unfold rfind? at hFind
  rcases Option.map_eq_some_iff.mp hFind with ⟨e, hE, rfl⟩
  rcases List.find?_eq_some_iff_append.mp hE with
    ⟨hC, earlier, later, hReverse, hNone⟩
  have hSplit :
      charIndices s = later.reverse ++ e :: earlier.reverse := by
    have hBack := congrArg List.reverse hReverse
    simpa using hBack
  rcases split_charIndicesFrom hSplit with ⟨hText, hAt⟩
  have hC : e.2 = c := of_decide_eq_true hC
  refine
    ⟨later.reverse.map Prod.snd, earlier.reverse.map Prod.snd,
      ?_, ?_, ?_⟩
  · rw [hText, hC]
  · intro hMember
    rcases List.mem_map.mp hMember with ⟨d, hD, hSame⟩
    have hOther := hNone d (List.mem_reverse.mp hD)
    simp [hSame] at hOther
  · rw [hAt, Nat.zero_add]

theorem rfind?_eq_none
    {c : Char}
    {s : List Char}
    (hFind : rfind? c s = none) :
    c ∉ s := by
  intro hMember
  rw [← map_snd_charIndicesFrom 0 s] at hMember
  rcases List.mem_map.mp hMember with ⟨e, hE, hSame⟩
  unfold rfind? at hFind
  rw [Option.map_eq_none_iff, List.find?_eq_none] at hFind
  exact
    hFind e (List.mem_reverse.mpr hE) (decide_eq_true hSame)

/- The offset a character is at ends the ones before it. -/
theorem charIndicesFrom_getElem?
    (k n : Nat)
    (s : List Char) :
    (((charIndicesFrom k s)[n]?).elim (k + size s) Prod.fst) =
      k + size (s.take n) := by
  induction s generalizing k n with
  | nil => simp [charIndicesFrom]
  | cons c rest ih =>
      cases n with
      | zero => simp [charIndicesFrom]
      | succ n =>
          have hRest := ih (k + c.utf8Size) n
          rw [charIndicesFrom, List.getElem?_cons_succ,
            List.take_succ_cons, size_cons, size_cons]
          rw [← Nat.add_assoc, hRest, Nat.add_assoc]

end Utf8

------------------------------------------------------------
-- Bytes
------------------------------------------------------------

namespace Utf8

/- What stands for bytes that are no character. -/
def replacement : Char := Char.ofNat 0xFFFD

def isContinuation
    (b : UInt8) : Bool :=
  0x80 ≤ b ∧ b ≤ 0xBF

/- The first two bytes of a character of three. -/
def startsThree
    (b c : UInt8) : Bool :=
  (b = 0xE0 ∧ 0xA0 ≤ c ∧ c ≤ 0xBF) ∨
    (0xE1 ≤ b ∧ b ≤ 0xEC ∧ isContinuation c) ∨
      (b = 0xED ∧ 0x80 ≤ c ∧ c ≤ 0x9F) ∨
        (0xEE ≤ b ∧ b ≤ 0xEF ∧ isContinuation c)

/- The first two bytes of a character of four. -/
def startsFour
    (b c : UInt8) : Bool :=
  (b = 0xF0 ∧ 0x90 ≤ c ∧ c ≤ 0xBF) ∨
    (0xF1 ≤ b ∧ b ≤ 0xF3 ∧ isContinuation c) ∨
      (b = 0xF4 ∧ 0x80 ≤ c ∧ c ≤ 0x8F)

/- A character of the low bits of its bytes. -/
def charOf
    (lead : Nat)
    (rest : List UInt8) : Char :=
  Char.ofNat
    (rest.foldl (fun n b => n * 64 + b.toNat % 64) lead)

/-
  `String::from_utf8_lossy`: each longest part of a
  character that no character follows is replaced.
-/
def lossy : List UInt8 → List Char
| [] => []
| b :: rest =>
    if b < 0x80 then Char.ofNat b.toNat :: lossy rest
    else
      match rest with
      | [] => [replacement]
      | c :: rest₂ =>
          if 0xC2 ≤ b ∧ b ≤ 0xDF ∧ isContinuation c then
            charOf (b.toNat % 32) [c] :: lossy rest₂
          else if startsThree b c then
            match rest₂ with
            | [] => [replacement]
            | d :: rest₃ =>
                if isContinuation d then
                  charOf (b.toNat % 16) [c, d] :: lossy rest₃
                else replacement :: lossy (d :: rest₃)
          else if startsFour b c then
            match rest₂ with
            | [] => [replacement]
            | d :: rest₃ =>
                if isContinuation d then
                  match rest₃ with
                  | [] => [replacement]
                  | e :: rest₄ =>
                      if isContinuation e then
                        charOf (b.toNat % 8) [c, d, e] ::
                          lossy rest₄
                      else replacement :: lossy (e :: rest₄)
                else replacement :: lossy (d :: rest₃)
          else replacement :: lossy (c :: rest₂)

example :
    lossy [0x61, 0xC3, 0xA9, 0xE2, 0x82, 0xFF, 0x62] =
      ['a', 'é', replacement, replacement, 'b'] := by
  decide

end Utf8

------------------------------------------------------------
-- Encoded
------------------------------------------------------------

namespace Utf8

/- The bytes of a text. -/
def encode
    (s : List Char) : List UInt8 :=
  s.flatMap String.utf8EncodeChar

/- A slice, of a text that has characters where it is cut. -/
def slice?
    (s : List Char)
    (start stop : Nat) : Option (List Char) :=
  if start ≤ stop then
    (splitAt? s stop).bind
      (fun parts => (splitAt? parts.1 start).map Prod.snd)
  else none

theorem encode_append
    (s t : List Char) :
    encode (s ++ t) = encode s ++ encode t :=
  List.flatMap_append

theorem length_encode
    (s : List Char) :
    (encode s).length = size s := by
  induction s with
  | nil => rfl
  | cons c rest ih =>
      unfold encode at ih ⊢
      rw [List.flatMap_cons, List.length_append, ih,
        String.length_utf8EncodeChar, size_cons]

theorem encodeChar_of_ascii
    {c : Char}
    (hAscii : c.toNat < 128) :
    String.utf8EncodeChar c = [UInt8.ofNat c.toNat] := by
  unfold String.utf8EncodeChar
  dsimp only
  rw [if_pos (show c.val.toNat ≤ 127 from Nat.le_of_lt_succ hAscii)]
  rfl

/- The bytes of the other characters are no ASCII bytes. -/
theorem le_of_mem_encodeChar
    {c : Char}
    (hWide : 128 ≤ c.toNat)
    {b : UInt8}
    (hMem : b ∈ String.utf8EncodeChar c) :
    128 ≤ b.toNat := by
  have hNot : ¬ c.val.toNat ≤ 127 := Nat.not_le.mpr hWide
  unfold String.utf8EncodeChar at hMem
  dsimp only at hMem
  rw [if_neg hNot] at hMem
  split at hMem
  · simp only [List.mem_cons, List.not_mem_nil, or_false] at hMem
    rcases hMem with rfl | rfl <;>
      · rw [UInt8.toNat_ofNat']
        omega
  · split at hMem
    · simp only [List.mem_cons, List.not_mem_nil, or_false] at hMem
      rcases hMem with rfl | rfl | rfl <;>
        · rw [UInt8.toNat_ofNat']
          omega
    · simp only [List.mem_cons, List.not_mem_nil, or_false] at hMem
      rcases hMem with rfl | rfl | rfl | rfl <;>
        · rw [UInt8.toNat_ofNat']
          omega

theorem slice?_size
    (front mid back : List Char) :
    slice? (front ++ mid ++ back) (size front)
        (size (front ++ mid)) =
      some mid := by
  unfold slice?
  rw [if_pos (by rw [size_append]; exact Nat.le_add_right _ _),
    splitAt?_size, Option.bind_some, splitAt?_size]
  rfl

end Utf8
