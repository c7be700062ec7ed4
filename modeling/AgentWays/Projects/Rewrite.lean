import AgentWays.Lib.Json
import AgentWays.Lib.RustText
import Mathlib.Algebra.GroupWithZero.Nat

/-
  The record rewrites of a relocation: a path field of each
  record of a JSONL file, mapped from the old path to the
  new one.

  Lines are bytes with what ends them. How a record is read
  and printed is `serde_json`'s; a document keeps its fields
  in their order.

  Key definitions include:
    * `Projects.remap`
    * `Projects.rewriteLine`
    * `Projects.rewriteBytes`
-/

------------------------------------------------------------
-- Paths
------------------------------------------------------------

namespace Projects

open Json (Tree)

/- What follows an old path starts a component under it. -/
def startsComponent
    (rest : String) : Bool :=
  RustText.startsWith rest "/"

/- A path text mapped, where it is the old path or under it. -/
def remapText
    (old new v : String) : Option String :=
  if v = old then some new
  else
    ((RustText.stripPrefix v old).filter startsComponent).map
      (fun rest => new ++ rest)

def asStr : Tree → Option String
| .str s => some s
| _ => none

def remap
    (value : Option Tree)
    (old new : String) : Option String :=
  (value.bind asStr).bind (remapText old new)

def pathMatches
    (value : Tree)
    (old : String) : Bool :=
  match asStr value with
  | none => false
  | some v =>
      v = old ∨
        ((RustText.stripPrefix v old).any startsComponent)

/- `Value::get` with a key. -/
def get?
    (obj : Tree)
    (key : String) : Option Tree :=
  match obj with
  | .obj fields =>
      (fields.find? (fun e => e.1 = key)).map Prod.snd
  | _ => none

def putField
    (key : String)
    (value : Tree) :
    List (String × Tree) → List (String × Tree)
| [] => [(key, value)]
| e :: rest =>
    if e.1 = key then (key, value) :: rest
    else e :: putField key value rest

/- A field set in its place, or as the last. -/
def setField
    (obj : Tree)
    (key : String)
    (value : Tree) : Tree :=
  match obj with
  | .obj fields => .obj (putField key value fields)
  | other => other

def isObject : Tree → Bool
| .obj _ => true
| _ => false

mutual

/- Whether the field holds an old path below the top level. -/
def hasNested
    (field old : String)
    (top : Bool) : Tree → Bool
| .obj fields => hasNestedFields field old top fields
| .arr items => hasNestedItems field old items
| _ => false

def hasNestedFields
    (field old : String)
    (top : Bool) : List (String × Tree) → Bool
| [] => false
| (key, value) :: rest =>
    (!top && key == field && pathMatches value old) ||
      hasNested field old false value ||
        hasNestedFields field old top rest

def hasNestedItems
    (field old : String) : List Tree → Bool
| [] => false
| value :: rest =>
    hasNested field old false value ||
      hasNestedItems field old rest

end

end Projects

------------------------------------------------------------
-- Lines
------------------------------------------------------------

namespace Projects

open Json (Tree)

abbrev Bytes := List UInt8

/- How records are read and printed, on one line. -/
structure JsonText where
  parse : Bytes → Option Tree
  print : Tree → Bytes

/- `str::as_bytes`. -/
def bytesOf
    (s : String) : Bytes :=
  s.toList.flatMap String.utf8EncodeChar

def newline : UInt8 := 10

/- `split_inclusive` at each newline. -/
def splitLines : Bytes → List Bytes
| [] => []
| b :: rest =>
    if b = newline then [b] :: splitLines rest
    else
      match splitLines rest with
      | [] => [[b]]
      | line :: lines => (b :: line) :: lines

def contains
    (hay needle : Bytes) : Bool :=
  !needle.isEmpty &&
    hay.tails.any (fun tail => needle.isPrefixOf tail)

/- A line's text, and what ends it. -/
def splitTerm
    (line : Bytes) : Bytes × Bytes :=
  if bytesOf "\r\n" <:+ line then
    (line.take (line.length - 2), bytesOf "\r\n")
  else if [newline] <:+ line then
    (line.take (line.length - 1), [newline])
  else (line, [])

/- How many records changed, still name the path, or nest it. -/
structure Rewrite where
  changed : Nat
  residual : Nat
  nested : Nat
deriving DecidableEq

def Rewrite.add
    (r r' : Rewrite) : Rewrite where
  changed := r.changed + r'.changed
  residual := r.residual + r'.residual
  nested := r.nested + r'.nested

/- A path field, and the path it is mapped from and to. -/
structure Field where
  field : String
  old : String
  new : String

variable (j : JsonText) (f : Field)

/- A line rewritten, and what is counted of it. -/
def rewriteLine
    (line : Bytes) : Bytes × Rewrite :=
  if !contains line (bytesOf f.old) then
    (line, ⟨0, 0, 0⟩)
  else
    let (body, term) := splitTerm line
    let parsed := j.parse body
    let mapped :=
      (parsed.filter isObject).bind
        (fun obj => remap (get? obj f.field) f.old f.new)
    match parsed, mapped with
    | some obj, some path =>
        let obj := setField obj f.field (.str path)
        let rendered := j.print obj
        (rendered ++ term,
          ⟨1, if contains rendered (bytesOf f.old) then 1 else 0,
            if hasNested f.field f.old true obj then 1 else 0⟩)
    | parsed, _ =>
        (line,
          ⟨0, 1,
            if parsed.any (hasNested f.field f.old true) then 1
            else 0⟩)

/- A file's bytes rewritten, line by line. -/
def rewriteBytes
    (bytes : Bytes) : Bytes :=
  (splitLines bytes).flatMap
    (fun line => (rewriteLine j f line).1)

def rewriteTally
    (bytes : Bytes) : Rewrite :=
  (splitLines bytes).foldl
    (fun r line => r.add (rewriteLine j f line).2) ⟨0, 0, 0⟩

end Projects
