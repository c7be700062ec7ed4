import AgentWays.Lib.RustText
import AgentWays.YamlEdit.Path

/-
  The lines of a settings document and what a key's line and
  block are told from: indentation, the key before a colon,
  and the comment after a value.

  `Yaml` stands for the calls made to `serde_yaml`: a text
  parsed as a value or as a string, and a number printed.

  Key definitions include:
    * `YamlEdit.Yaml`
    * `YamlEdit.splitKey`
    * `YamlEdit.splitComment`
    * `YamlEdit.quote`
    * `YamlEdit.renderEntry`
    * `YamlEdit.entryAt`
    * `YamlEdit.findIn`
    * `YamlEdit.style`
-/

------------------------------------------------------------
-- Line Helpers
------------------------------------------------------------

namespace YamlEdit

abbrev Line := List Char

structure YamlError where
  line : Option Nat
  message : String
deriving DecidableEq

/- The calls made to `serde_yaml`. -/
structure Yaml where
  value : String → Except YamlError Value
  text : String → Option String
  number : Number → Option String

/- Texts that YAML reads back as they are. -/
def bareYaml : Yaml where
  value := fun s => .ok (.string s)
  text := some
  number := fun n => some n.text

def trimEnd
    (l : Line) : Line :=
  (l.reverse.dropWhile RustText.isWhitespace).reverse

def trimStart
    (l : Line) : Line :=
  l.dropWhile RustText.isWhitespace

def isBlank
    (l : Line) : Bool :=
  l.all RustText.isWhitespace

def isComment
    (l : Line) : Bool :=
  (trimStart l).head? = some '#'

/- A line that is neither blank nor a comment. -/
def isContent
    (l : Line) : Bool :=
  !isBlank l && !isComment l

def indentOf
    (l : Line) : Nat :=
  (l.takeWhile (· = ' ')).length

def isSeqItem
    (t : Line) : Bool :=
  t = ['-'] || ['-', ' '].isPrefixOf t

/- What may follow the colon of a key. -/
def colonOk : Line → Bool
| [] => true
| c :: _ => c = ' ' || c = '\t'

/- The text up to the closing quote, and the text after it. -/
def closeQuote
    (q : Char) : Bool → Line → Option (Line × Line)
| _, [] => none
| esc, c :: rest =>
    if q = '"' ∧ c = '\\' ∧ esc = false then
      (closeQuote q true rest).map (fun p => (c :: p.1, p.2))
    else if c = q ∧ esc = false then some ([c], rest)
    else
      (closeQuote q false rest).map
        (fun p => (c :: p.1, p.2))

/- The text before the first colon that may end a key. -/
def splitColon : Line → Option (Line × Line)
| [] => none
| c :: rest =>
    if c = ':' ∧ colonOk rest then some ([], rest)
    else (splitColon rest).map (fun p => (c :: p.1, p.2))

def isQuote
    (c : Char) : Bool :=
  c = '"' || c = '\''

def quotedKey
    (q : Char)
    (rest : Line) : Option (Line × Line) :=
  match closeQuote q false rest with
  | none => none
  | some (inside, after) =>
      match after.dropWhile (fun c => c = ' ' || c = '\t') with
      | ':' :: tail =>
          if colonOk tail then some (q :: inside, tail)
          else none
      | _ => none

def plainKey
    (t : Line) : Option (Line × Line) :=
  match splitColon t with
  | none => none
  | some (before, rest) =>
      let key := trimEnd before
      if key.isEmpty || key.tails.any ([' ', '#'].isPrefixOf ·)
      then none
      else some (key, rest)

/-
  A line without its indent as its raw key and the text after
  the colon, `none` where the line is no mapping key.
-/
def splitKey
    (t : Line) : Option (Line × Line) :=
  match t with
  | [] => none
  | c :: rest =>
      if c = '#' || c = ' ' || c = '?' || isSeqItem t then none
      else if isQuote c then quotedKey c rest
      else plainKey t

/- The first `#` that starts a comment, counted from here. -/
def hashAt : Option Char → Line → Option Nat
| _, [] => none
| prev, c :: rest =>
    if c = '#' ∧ (prev = none ∨ prev = some ' ' ∨
        prev = some '\t') then some 0
    else (hashAt (some c) rest).map (· + 1)

/- Where the scan for a comment starts: after a quoted value. -/
def scanFrom : Line → Nat
| [] => 0
| c :: rest =>
    if isQuote c then
      match closeQuote c false rest with
      | some (inside, _) => inside.length + 1
      | none => 0
    else 0

/-
  The text after a key's colon as the value and the trailing
  comment, with the whitespace before it.
-/
def splitComment
    (rest : Line) : Line × Line :=
  let body := trimStart rest
  let start := scanFrom body
  match hashAt (body.take start).getLast? (body.drop start)
  with
  | some h =>
      let value := trimEnd (body.take (start + h))
      (value, body.drop value.length)
  | none => (trimEnd body, [])

/- `unquote`, the key a raw key stands for. -/
def unquote
    (y : Yaml)
    (raw : Line) : String :=
  let inside := (raw.drop 1).dropLast
  if 2 ≤ raw.length ∧ raw.head? = some '"' ∧
      raw.getLast? = some '"' then
    (y.text (String.ofList raw)).getD (String.ofList inside)
  else if 2 ≤ raw.length ∧ raw.head? = some '\'' ∧
      raw.getLast? = some '\'' then
    RustText.replace (String.ofList inside) "''" "'"
  else String.ofList raw

end YamlEdit

------------------------------------------------------------
-- Rendering
------------------------------------------------------------

namespace YamlEdit

def escape : Char → Line
| '\\' => ['\\', '\\']
| '"' => ['\\', '"']
| '\n' => ['\\', 'n']
| '\t' => ['\\', 't']
| '\r' => ['\\', 'r']
| c => [c]

/- The characters that no bare string starts with. -/
def marks : List Char :=
  ['~', '*', '&', '!', '%', '@', Char.ofNat 96, '\'', '"',
    '[', ']', '\x7b', '\x7d', '#', '-', '?', '|', '>', ',', ':']

/- Whether a string is written as it is. -/
def isBare
    (y : Yaml)
    (s : String) : Bool :=
  !s.toList.isEmpty && RustText.trim s == s &&
    !(s.toList.head?.any (marks.contains ·)) &&
    !RustText.contains s ": " && !RustText.contains s " #" &&
    !RustText.endsWith s ":" &&
    !s.toList.any RustText.isControl &&
    (match y.value s with
    | .ok v => v.eq (.string s)
    | .error _ => false)

/- `quote`: bare, or in double quotes. -/
def quote
    (y : Yaml)
    (s : String) : Line :=
  if isBare y s then s.toList
  else '"' :: s.toList.flatMap escape ++ ['"']

def ofText
    (s : String) : Line :=
  s.toList

/- A scalar, or an empty collection, as one line of YAML. -/
def inlineScalar
    (y : Yaml) : Value → Option Line
| .null => some (ofText "null")
| .bool b => some (ofText (if b then "true" else "false"))
| .number n =>
    (y.number n).map (fun s => ofText (RustText.trim s))
| .string s => some (quote y s)
| .sequence [] => some (ofText "[]")
| .mapping [] => some (ofText "\x7b\x7d")
| .tagged _ v => inlineScalar y v
| _ => none

def spaces
    (n : Nat) : Line :=
  List.replicate n ' '

/- `ind` and `key`, then what stands after the colon. -/
def keyLine
    (indent : Nat)
    (key tail : Line) : Line :=
  spaces indent ++ key ++ ':' :: tail

/- The first line of an item's entries under its dash. -/
def dashFirst
    (indent : Nat) : List Line → List Line
| [] => []
| l :: rest =>
    (spaces indent ++ ['-', ' '] ++ l.drop (indent + 2)) ::
      rest

mutual

def renderEntry
    (y : Yaml) (key : Line) :
    Value → Nat → Line → List Line
| v, indent, comment =>
    match inlineScalar y v with
    | some s => [keyLine indent key (' ' :: s ++ comment)]
    | none =>
        keyLine indent key comment ::
          match v with
          | .mapping m => renderEntries y m (indent + 2)
          | .sequence items => renderItems y items (indent + 2)
          | _ => []

def renderEntries
    (y : Yaml) : List (Key × Value) → Nat → List Line
| [], _ => []
| (k, v) :: rest, indent =>
    renderEntry y (quote y k.text) v indent [] ++
      renderEntries y rest indent

def renderItem
    (y : Yaml) : Value → Nat → List Line
| v, indent =>
    match inlineScalar y v with
    | some s => [spaces indent ++ ['-', ' '] ++ s]
    | none =>
        match v with
        | .mapping m =>
            dashFirst indent (renderEntries y m (indent + 2))
        | .sequence items =>
            (spaces indent ++ ['-']) ::
              renderItems y items (indent + 2)
        | _ => [spaces indent ++ ofText "- null"]

def renderItems
    (y : Yaml) : List Value → Nat → List Line
| [], _ => []
| v :: rest, indent =>
    renderItem y v indent ++ renderItems y rest indent

end

/- `path` as nested keys down to `v`. -/
def renderPath
    (y : Yaml)
    (v : Value) : List String → Nat → List Line
| [], _ => []
| [seg], indent => renderEntry y (quote y seg) v indent []
| seg :: next :: rest, indent =>
    keyLine indent (quote y seg) [] ::
      renderPath y v (next :: rest) (indent + 2)

end YamlEdit

------------------------------------------------------------
-- Entries And Blocks
------------------------------------------------------------

namespace YamlEdit

/- A key's line and block; `endAt` is one past its content. -/
structure Entry where
  line : Nat
  endAt : Nat
  indent : Nat
  keyRaw : Line
  inline : Line
  comment : Line
deriving DecidableEq

inductive Style where
| null
| inline
| blockMap (indent : Nat)
| blockSeq
deriving DecidableEq

structure Block where
  start : Nat
  endAt : Nat
  indent : Nat
deriving DecidableEq

/- The block of the mapping below an entry. -/
def Entry.block
    (e : Entry)
    (indent : Nat) : Block where
  start := e.line + 1
  endAt := e.endAt
  indent := indent

def firstContent
    (lines : List Line) : Option Line :=
  lines.find?
    (fun l =>
      isContent l &&
        decide (trimEnd (trimStart l) ≠ ['-', '-', '-']))

def flowRoot
    (lines : List Line) : Bool :=
  match firstContent lines with
  | some l =>
      (trimStart l).head?.any (fun c => c = '\x7b' || c = '[')
  | none => false

def rootBlock
    (lines : List Line) : Block where
  start := 0
  endAt := lines.length
  indent := ((firstContent lines).map indentOf).getD 0

/- Whether a content line goes on with an entry. -/
def continues
    (indent : Nat)
    (inline l : Line) : Bool :=
  decide (indent < indentOf l) ||
    (decide (indentOf l = indent) && inline.isEmpty &&
      isSeqItem (l.drop (indentOf l)))

/- The last content line of an entry, from line `j` on. -/
def lastContent
    (indent : Nat)
    (inline : Line) : List Line → Nat → Nat → Nat
| [], _, last => last
| l :: rest, j, last =>
    if !isContent l then
      lastContent indent inline rest (j + 1) last
    else if continues indent inline l then
      lastContent indent inline rest (j + 1) j
    else last

def entryAt
    (lines : List Line)
    (i indent blockEnd : Nat) : Entry :=
  let key :=
    (splitKey ((lines.getD i []).drop indent)).getD ([], [])
  let value := splitComment key.2
  { line := i
    endAt :=
      lastContent indent value.1
        ((lines.take blockEnd).drop (i + 1)) (i + 1) i + 1
    indent := indent
    keyRaw := key.1
    inline := value.1
    comment := value.2 }

/- The key a line of a block holds, by its text. -/
def keyAt
    (y : Yaml)
    (lines : List Line)
    (indent i : Nat) : Option String :=
  let l := lines.getD i []
  if !isContent l || decide (indentOf l ≠ indent) then none
  else (splitKey (l.drop indent)).map (fun p => unquote y p.1)

/- `find_in`: the first entry of the block with the key. -/
def findIn
    (y : Yaml)
    (lines : List Line)
    (b : Block)
    (key : String) : Option Entry :=
  ((List.range' b.start (b.endAt - b.start)).find?
    (fun i => decide (keyAt y lines b.indent i = some key))).map
      (fun i => entryAt lines i b.indent b.endAt)

def style
    (lines : List Line)
    (e : Entry) : Style :=
  if !e.inline.isEmpty then .inline
  else
    match
      ((lines.take e.endAt).drop (e.line + 1)).find? isContent
    with
    | none => .null
    | some l =>
        if isSeqItem (l.drop (indentOf l)) then .blockSeq
        else .blockMap (indentOf l)

end YamlEdit
