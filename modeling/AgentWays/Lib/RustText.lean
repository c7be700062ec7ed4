import Mathlib.Algebra.Group.Nat.Defs
import Mathlib.Data.List.Basic

/-
  The text operations of Rust's standard library that the
  models below print and compare with.

  Key definitions include:
    * `RustText.fixed`, the `{:.p}` form of an `f64`
    * `RustText.pad2`, the `{:02}` form of an integer
    * `RustText.toLowercase`
    * `RustText.contains`
    * `RustText.replaceChars`
    * `RustText.stripPrefix`
    * `RustText.splitOnce`
    * `RustText.replace`
    * `RustText.splitWhitespace`
    * `RustText.trim`
    * `RustText.lines`
-/

------------------------------------------------------------
-- Decimal Forms
------------------------------------------------------------

namespace RustText

/- The quotient rounded to nearest, ties to even. -/
def roundHalfEven
    (num den : Nat) : Nat :=
  let q := num / den
  let r := num % den
  if 2 * r < den then q
  else if den < 2 * r then q + 1
  else if q % 2 = 0 then q
  else q + 1

/- Digits of `q` with the last `p` of them after a point. -/
def withPoint
    (q p : Nat) : String :=
  let digits := toString q
  let padded :=
    String.ofList
      (List.replicate (p + 1 - digits.length) '0') ++
        digits
  let whole := padded.toList.take (padded.length - p)
  let rest := padded.toList.drop (padded.length - p)
  if p = 0 then String.ofList whole
  else String.ofList whole ++ "." ++ String.ofList rest

/-
  An `f64` printed with `p` digits after the point: the
  exact binary value, rounded to nearest, ties to even.
-/
def fixed
    (p : Nat)
    (x : Float) : String :=
  let bits := x.toBits.toNat
  let sign := if bits / 2 ^ 63 = 1 then "-" else ""
  let exponent := bits / 2 ^ 52 % 2 ^ 11
  let fraction := bits % 2 ^ 52
  if exponent = 2 ^ 11 - 1 then
    if fraction = 0 then sign ++ "inf" else "NaN"
  else if exponent = 0 then
    sign ++
      withPoint
        (roundHalfEven (fraction * 10 ^ p) (2 ^ 1074)) p
  else if 1075 ≤ exponent then
    sign ++
      withPoint
        ((fraction + 2 ^ 52) * 2 ^ (exponent - 1075) *
          10 ^ p) p
  else
    sign ++
      withPoint
        (roundHalfEven ((fraction + 2 ^ 52) * 10 ^ p)
          (2 ^ (1075 - exponent))) p

/- An integer in at least two digits. -/
def pad2
    (n : Nat) : String :=
  if n < 10 then "0" ++ toString n else toString n

/- An integer in at least four digits. -/
def pad4
    (n : Nat) : String :=
  let digits := toString n
  String.ofList (List.replicate (4 - digits.length) '0') ++
    digits

end RustText

------------------------------------------------------------
-- Strings
------------------------------------------------------------

namespace RustText

/-
  The lower case of one character. Beside the ASCII letters
  only the Kelvin sign and the dotted capital I have a lower
  case with an ASCII letter in it; every other character is
  kept, since the callers look for ASCII text alone.
-/
def lowerChar
    (c : Char) : List Char :=
  if c = '\u212A' then ['k']
  else if c = '\u0130' then ['i', '\u0307']
  else [c.toLower]

/- `str::to_lowercase`, as far as ASCII text can tell. -/
def toLowercase
    (s : String) : String :=
  String.ofList (s.toList.flatMap lowerChar)

/- `str::contains` with a string pattern. -/
def contains
    (s pattern : String) : Bool :=
  s.toList.tails.any
    (fun tail => pattern.toList.isPrefixOf tail)

/- Each character of `from` replaced by `to`. -/
def replaceChars
    (s : String)
    (olds : List Char)
    (new : Char) : String :=
  String.ofList
    (s.toList.map (fun c => if c ∈ olds then new else c))

/- `str::strip_prefix`. -/
def stripPrefix
    (s head : String) : Option String :=
  if head.toList.isPrefixOf s.toList then
    some (String.ofList (s.toList.drop head.length))
  else none

/- `str::starts_with`. -/
def startsWith
    (s head : String) : Bool :=
  head.toList.isPrefixOf s.toList

/- `str::ends_with`. -/
def endsWith
    (s tail : String) : Bool :=
  tail.toList.isSuffixOf s.toList

/- `str::strip_suffix`. -/
def stripSuffix
    (s tail : String) : Option String :=
  if endsWith s tail then
    some (String.ofList (s.toList.take (s.length - tail.length)))
  else none

/- `str::split_once` with a character. -/
def splitOnce
    (s : String)
    (c : Char) : Option (String × String) :=
  match s.toList.dropWhile (· ≠ c) with
  | [] => none
  | _ :: rest =>
      some
        (String.ofList (s.toList.takeWhile (· ≠ c)),
          String.ofList rest)

/- `str::rsplit_once` with a character. -/
def rsplitOnce
    (s : String)
    (c : Char) : Option (String × String) :=
  match s.toList.reverse.dropWhile (· ≠ c) with
  | [] => none
  | _ :: rest =>
      some
        (String.ofList rest.reverse,
          String.ofList
            (s.toList.reverse.takeWhile (· ≠ c)).reverse)

/- The text before the first copy of `sep`, and the rest. -/
def splitOnceList
    (sep : List Char) :
    List Char → Option (List Char × List Char)
| [] => none
| c :: rest =>
    if sep.isPrefixOf (c :: rest) then
      some ([], (c :: rest).drop sep.length)
    else
      (splitOnceList sep rest).map
        (fun p => (c :: p.1, p.2))

/- `str::split_once` with a text that is not empty. -/
def splitOnceStr
    (s sep : String) : Option (String × String) :=
  (splitOnceList sep.toList s.toList).map
    (fun p => (String.ofList p.1, String.ofList p.2))

/- `str::split` with a character. -/
def split
    (s : String)
    (c : Char) : List String :=
  (s.toList.splitOn c).map String.ofList

/- The value of a run of decimal digits. -/
def digitsValue
    (digits : List Char) : Nat :=
  digits.foldl (fun n c => 10 * n + (c.toNat - 48)) 0

/- `str::parse` for an unsigned integer of so many bits. -/
def parseUnsigned
    (bits : Nat)
    (s : String) : Option Nat :=
  let digits :=
    match s.toList with
    | '+' :: rest => rest
    | cs => cs
  if digits.isEmpty || !digits.all Char.isDigit then none
  else if digitsValue digits < 2 ^ bits then
    some (digitsValue digits)
  else none

/- Every copy of `old`, left to right, replaced by `new`. -/
def replaceList
    (old new : List Char) : Nat → List Char → List Char
| 0, s => s
| _ + 1, [] => []
| fuel + 1, c :: rest =>
    if old.isPrefixOf (c :: rest) then
      new ++
        replaceList old new fuel
          ((c :: rest).drop old.length)
    else c :: replaceList old new fuel rest

/- `str::replace` of a pattern that is not empty. -/
def replace
    (s old new : String) : String :=
  String.ofList
    (replaceList old.toList new.toList (s.length + 1)
      s.toList)

/- `str::eq_ignore_ascii_case`. -/
def eqIgnoreAsciiCase
    (s t : String) : Bool :=
  s.toList.map Char.toLower == t.toList.map Char.toLower

/-
  `char::is_whitespace`: the Unicode `White_Space` property.
-/
def isWhitespace
    (c : Char) : Bool :=
  let n := c.toNat
  (9 ≤ n && n ≤ 13) || n == 0x20 || n == 0x85 ||
    n == 0xA0 || n == 0x1680 ||
    (0x2000 ≤ n && n ≤ 0x200A) || n == 0x2028 ||
    n == 0x2029 || n == 0x202F || n == 0x205F ||
    n == 0x3000

/- `char::is_control`: the general category `Cc`. -/
def isControl
    (c : Char) : Bool :=
  let n := c.toNat
  n < 0x20 || (0x7F ≤ n && n ≤ 0x9F)

/- The runs of characters between whitespace. -/
def wordsOf : List Char → List Char → List (List Char)
| [], word => if word.isEmpty then [] else [word.reverse]
| c :: rest, word =>
    if isWhitespace c then
      if word.isEmpty then wordsOf rest []
      else word.reverse :: wordsOf rest []
    else wordsOf rest (c :: word)

/- `str::split_whitespace`. -/
def splitWhitespace
    (s : String) : List String :=
  (wordsOf s.toList []).map String.ofList

/- `str::trim`. -/
def trim
    (s : String) : String :=
  String.ofList
    (((s.toList.dropWhile isWhitespace).reverse.dropWhile
      isWhitespace).reverse)

/- `str::trim_start`. -/
def trimStart
    (s : String) : String :=
  String.ofList (s.toList.dropWhile isWhitespace)

/- `str::trim_end_matches` with a character. -/
def trimEndMatches
    (s : String)
    (c : Char) : String :=
  String.ofList
    ((s.toList.reverse.dropWhile (· = c)).reverse)

/- A line without the carriage return its newline had. -/
def stripReturn
    (line : List Char) : List Char :=
  match line.reverse with
  | '\r' :: rest => rest.reverse
  | _ => line

/- The lines of a text, the read part of one in `line`. -/
def linesFrom : List Char → List Char → List (List Char)
| [], line => if line.isEmpty then [] else [line.reverse]
| c :: rest, line =>
    if c = '\n' then
      stripReturn line.reverse :: linesFrom rest []
    else linesFrom rest (c :: line)

/- `str::lines`. -/
def lines
    (s : String) : List String :=
  (linesFrom s.toList []).map String.ofList

end RustText
