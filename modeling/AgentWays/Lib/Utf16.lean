import Mathlib.Data.List.Basic
import Mathlib.Data.String.Basic

/-
  UTF-16: the code units of a text, and the code points of a
  list of code units, where a surrogate that has no partner
  is a code point of its own.

  Key definitions include:
    * `Utf16.encode`
    * `Utf16.codePoints`
    * `Utf16.ofCodePoints`

  Main declarations:
    * `Utf16.codePoints_ofChars`
-/

------------------------------------------------------------
-- Code Units
------------------------------------------------------------

namespace Utf16

/- The code units of a code point. -/
def unitsOf
    (n : Nat) : List UInt16 :=
  if n < 0x10000 then [UInt16.ofNat n]
  else
    [UInt16.ofNat (0xD800 + (n - 0x10000) / 0x400),
      UInt16.ofNat (0xDC00 + (n - 0x10000) % 0x400)]

def ofCodePoints
    (points : List Nat) : List UInt16 :=
  points.flatMap unitsOf

def ofChars
    (cs : List Char) : List UInt16 :=
  ofCodePoints (cs.map Char.toNat)

/- `str::encode_utf16`. -/
def encode
    (s : String) : List UInt16 :=
  ofChars s.toList

def isHigh
    (u : UInt16) : Bool :=
  0xD800 ≤ u.toNat && u.toNat < 0xDC00

def isLow
    (u : UInt16) : Bool :=
  0xDC00 ≤ u.toNat && u.toNat < 0xE000

/- The code points of a string. -/
def codePoints : List UInt16 → List Nat
| [] => []
| [u] => [u.toNat]
| u :: v :: rest =>
    if isHigh u && isLow v then
      (0x10000 + (u.toNat - 0xD800) * 0x400 +
        (v.toNat - 0xDC00)) :: codePoints rest
    else u.toNat :: codePoints (v :: rest)

end Utf16

------------------------------------------------------------
-- Code Points
------------------------------------------------------------

namespace Utf16

theorem toNat_unit
    {n : Nat}
    (hBound : n < 0x10000) :
    (UInt16.ofNat n).toNat = n :=
  UInt16.toNat_ofNat_of_lt hBound

theorem ofCodePoints_append
    (a b : List Nat) :
    ofCodePoints (a ++ b) = ofCodePoints a ++ ofCodePoints b :=
  List.flatMap_append

theorem ofChars_append
    (a b : List Char) :
    ofChars (a ++ b) = ofChars a ++ ofChars b := by
  unfold ofChars
  rw [List.map_append, ofCodePoints_append]

theorem encode_append
    (a b : String) :
    encode (a ++ b) = encode a ++ encode b := by
  unfold encode
  rw [String.toList_append, ofChars_append]

/- A scalar value is no surrogate. -/
theorem toNat_char_cases
    (c : Char) :
    c.toNat < 0xD800 ∨
      (0xDFFF < c.toNat ∧ c.toNat < 0x110000) := by
  have hValid := c.valid
  rcases hValid with hLow | hHigh
  · exact Or.inl hLow
  · exact Or.inr hHigh

theorem codePoints_cons_of_not_high
    {u : UInt16}
    (rest : List UInt16)
    (hUnit : isHigh u = false) :
    codePoints (u :: rest) = u.toNat :: codePoints rest := by
  cases rest with
  | nil => rfl
  | cons v rest =>
      rw [codePoints, hUnit, Bool.false_and]
      rfl

/- One character is read back as its own code point. -/
theorem codePoints_unitsOf_append
    (c : Char)
    (rest : List UInt16) :
    codePoints (unitsOf c.toNat ++ rest) =
      c.toNat :: codePoints rest := by
  have hCases := toNat_char_cases c
  unfold unitsOf
  split
  · rename_i hSmall
    rw [List.singleton_append, codePoints_cons_of_not_high,
      toNat_unit hSmall]
    unfold isHigh
    rw [toNat_unit hSmall]
    simp only [Bool.and_eq_false_imp, decide_eq_true_eq,
      decide_eq_false_iff_not]
    omega
  · have hHigh :
        (UInt16.ofNat
          (0xD800 + (c.toNat - 0x10000) / 0x400)).toNat =
          0xD800 + (c.toNat - 0x10000) / 0x400 :=
      toNat_unit (by omega)
    have hLow :
        (UInt16.ofNat
          (0xDC00 + (c.toNat - 0x10000) % 0x400)).toNat =
          0xDC00 + (c.toNat - 0x10000) % 0x400 :=
      toNat_unit (by omega)
    have hPair :
        (isHigh
            (UInt16.ofNat
              (0xD800 + (c.toNat - 0x10000) / 0x400)) &&
          isLow
            (UInt16.ofNat
              (0xDC00 + (c.toNat - 0x10000) % 0x400))) =
          true := by
      unfold isHigh isLow
      rw [hHigh, hLow]
      simp only [Bool.and_eq_true, decide_eq_true_eq]
      omega
    rw [List.cons_append, List.cons_append, List.nil_append,
      codePoints, if_pos hPair, hHigh, hLow]
    have hSum :
        0x10000 +
              (0xD800 + (c.toNat - 0x10000) / 0x400 - 0xD800) *
                0x400 +
            (0xDC00 + (c.toNat - 0x10000) % 0x400 - 0xDC00) =
          c.toNat := by
      omega
    rw [hSum]

theorem codePoints_ofChars
    (cs : List Char) :
    codePoints (ofChars cs) = cs.map Char.toNat := by
  induction cs with
  | nil => rfl
  | cons c cs ih =>
      have hCons :
          ofChars (c :: cs) = unitsOf c.toNat ++ ofChars cs :=
        rfl
      rw [hCons, codePoints_unitsOf_append, ih, List.map_cons]

end Utf16
