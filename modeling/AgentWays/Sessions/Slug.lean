import AgentWays.Lib.RustText
import AgentWays.Lib.Utf16
import Mathlib.Data.Nat.Digits.Defs
import Mathlib.Data.String.Basic

/-
  The directory name of a project, and the name of its
  signal tray and instance registry.

  Key definitions include:
    * `Sessions.pathHash`
    * `Sessions.base36`
    * `Sessions.projectSlug`
    * `Sessions.attendKey`
    * `Sessions.attendKeySlug`
-/

------------------------------------------------------------
-- Hashes
------------------------------------------------------------

namespace Sessions

def hashStep
    (h : Int32)
    (unit : UInt16) : Int32 :=
  (h <<< 5) - h + unit.toUInt32.toInt32

/- The 32-bit hash of a path, over its UTF-16 code units. -/
def pathHash
    (path : String) : Int32 :=
  (Utf16.encode path).foldl hashStep 0

/- `i32::unsigned_abs`. -/
def unsignedAbs
    (h : Int32) : UInt32 :=
  if h < 0 then (-h).toUInt32 else h.toUInt32

def digits : List Char :=
  "0123456789abcdefghijklmnopqrstuvwxyz".toList

/- The digits of a number to base 36, the first digit first. -/
def base36
    (n : UInt32) : String :=
  if n = 0 then "0"
  else
    String.ofList
      (((Nat.digits 36 n.toNat).map
        (fun d => digits.getD d '0')).reverse)

end Sessions

------------------------------------------------------------
-- Names
------------------------------------------------------------

namespace Sessions

/- The longest slug that is not cut. -/
def maxSlugLen : Nat := 200

/- `char::len_utf16`. -/
def lenUtf16
    (c : Char) : Nat :=
  (Utf16.unitsOf c.toNat).length

def slugChar
    (c : Char) : List Char :=
  if c.isAlphanum then [c] else List.replicate (lenUtf16 c) '-'

/-
  The directory name of a path. One that is cut carries the
  hash of the whole path.
-/
def projectSlug
    (path : String) : String :=
  let slug := path.toList.flatMap slugChar
  if slug.length ≤ maxSlugLen then String.ofList slug
  else
    String.ofList (slug.take maxSlugLen) ++ "-" ++
      base36 (unsignedAbs (pathHash path))

/- The name of a path's tray and registry. -/
def attendKey
    (path : String) : String :=
  if path = "" then ""
  else
    projectSlug path ++ "-" ++
      base36 (unsignedAbs (pathHash path))

/- The slug that a tray's name was made of. -/
def attendKeySlug
    (name : String) : Option String :=
  if name.toList.all (fun c => c.isAlphanum || c == '-') then
    match RustText.rsplitOnce name '-' with
    | none => none
    | some (slug, hash) =>
        if hash = "" then none else some slug
  else none

end Sessions
