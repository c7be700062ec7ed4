import AgentWays.Lib.Utf16
import Mathlib.Data.Nat.Digits.Defs

/-
  JavaScript strings: lists of UTF-16 code units, with the
  string functions of the language that the models below
  use.

  A regular expression with the `u` flag reads the code
  points of a string, one without it the code units.

  Key definitions include:
    * `JsText.JsString`
    * `JsText.isSpace`, `JsText.trim`
    * `JsText.squeeze`, the runs of a class made one space
    * `JsText.indexOf`, `JsText.lastIndexOf`
    * `JsText.split`, `JsText.join`
    * `JsText.toString36`, `JsText.padStart`
-/

------------------------------------------------------------
-- Strings
------------------------------------------------------------

namespace JsText

open Utf16

/- A string of the language. -/
abbrev JsString := List UInt16

/- A text as a string of the language. -/
abbrev js (s : String) : JsString :=
  encode s

/- The regular expression class `\s`. -/
def isSpace
    (n : Nat) : Bool :=
  (9 ≤ n && n ≤ 13) || n == 0x20 || n == 0xA0 ||
    n == 0x1680 || (0x2000 ≤ n && n ≤ 0x200A) ||
    n == 0x2028 || n == 0x2029 || n == 0x202F ||
    n == 0x205F || n == 0x3000 || n == 0xFEFF

/- `String.prototype.trimEnd`. -/
def trimEnd
    (s : JsString) : JsString :=
  (s.reverse.dropWhile (fun u => isSpace u.toNat)).reverse

/- `String.prototype.trim`. -/
def trim
    (s : JsString) : JsString :=
  trimEnd (s.dropWhile (fun u => isSpace u.toNat))

/-
  Each run of a class's members replaced by one space. The
  flag says whether the last point read was in a run.
-/
def squeeze
    (inClass : Nat → Bool) : Bool → List Nat → List Nat
| _, [] => []
| run, n :: rest =>
    if inClass n then
      if run then squeeze inClass true rest
      else 0x20 :: squeeze inClass true rest
    else n :: squeeze inClass false rest

/- `s.replace(/[…]+/gu, ' ')`. -/
def replaceRuns
    (inClass : Nat → Bool)
    (s : JsString) : JsString :=
  ofCodePoints (squeeze inClass false (codePoints s))

/- `s.replace(/[^…]/gu, '-')`, the class kept. -/
def replaceOthers
    (kept : Nat → Bool)
    (s : JsString) : JsString :=
  ofCodePoints
    ((codePoints s).map (fun n => if kept n then n else 0x2D))

/- `String.prototype.indexOf`; `none` where it gives `-1`. -/
def indexOf
    (pattern : JsString) : JsString → Option Nat
| [] => if pattern.isEmpty then some 0 else none
| u :: rest =>
    if pattern.isPrefixOf (u :: rest) then some 0
    else (indexOf pattern rest).map (· + 1)

/- `String.prototype.lastIndexOf`. -/
def lastIndexOf
    (pattern : JsString) : JsString → Option Nat
| [] => if pattern.isEmpty then some 0 else none
| u :: rest =>
    match lastIndexOf pattern rest with
    | some i => some (i + 1)
    | none =>
        if pattern.isPrefixOf (u :: rest) then some 0 else none

/- `String.prototype.split` with one code unit. -/
def split
    (s : JsString)
    (u : UInt16) : List JsString :=
  s.splitOn u

/- `Array.prototype.join`. -/
def join
    (parts : List JsString)
    (sep : JsString) : JsString :=
  sep.intercalate parts

/- A digit of `Number.prototype.toString` past nine too. -/
def digitUnit
    (d : Nat) : UInt16 :=
  UInt16.ofNat (if d < 10 then 0x30 + d else 0x61 + (d - 10))

/- `Number.prototype.toString(36)` of an integer. -/
def toString36
    (n : Nat) : JsString :=
  if n = 0 then [digitUnit 0]
  else ((Nat.digits 36 n).map digitUnit).reverse

/- `String.prototype.padStart` with one code unit. -/
def padStart
    (s : JsString)
    (length : Nat)
    (u : UInt16) : JsString :=
  List.replicate (length - s.length) u ++ s

/- `s.slice(-n)`. -/
def sliceLast
    (s : JsString)
    (n : Nat) : JsString :=
  s.drop (s.length - n)

end JsText
