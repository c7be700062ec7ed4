import AgentWays.Lib.RustText
import AgentWays.Lib.Spans

/-
  The shell lexer: a command's text into the raw segments of
  its lists, with the heredoc bodies that are cut from them.

  A text is the list of its characters and a position counts
  them: each character the lexer looks for is one byte, and
  the bytes of any other are taken as they stand, so it ends
  nothing inside a character. A slice that is out of range,
  and a loop that has used up its steps, gives none.

  Key definitions include:
    * `Command.RawSegment`
    * `Command.Listing`
    * `Command.listFrom`
    * `Command.wordFrom`
    * `Command.lex`
-/

------------------------------------------------------------
-- Tokens And Segments
------------------------------------------------------------

namespace Command

abbrev Text := List Char

/- What joins a segment to the one before it. -/
inductive Connector
| start
| semicolon
| and
| or
| pipe
| background
| newline
| subshell
| commandSubstitution
| loopBody
| commandString
deriving DecidableEq, Repr

inductive TokenKind
| word
| redirectOp
| redirectTarget
deriving DecidableEq, Repr

structure Token where
  span : Span
  value : Text
  kind : TokenKind
deriving DecidableEq, Repr

structure RawSegment where
  connector : Connector
  depth : Nat
  tokens : List Token
deriving DecidableEq, Repr

inductive Term
| eof
| paren
| backtick
deriving DecidableEq, Repr

structure Heredoc where
  delim : Text
  stripTabs : Bool
deriving DecidableEq, Repr

/- The lexer over a text, and the bodies it has still to read. -/
structure Lexer where
  pos : Nat
  heredocs : List Heredoc
  excluded : List Span
deriving DecidableEq, Repr

/- `List`: one list's segment in progress. -/
structure Listing where
  depth : Nat
  out : List RawSegment
  cur : RawSegment
  nested : List RawSegment
  redirect : Option Text
  dbracket : Bool
  casePattern : Bool
deriving DecidableEq, Repr

/- Lists nested deeper than this are skipped. -/
def maxDepth : Nat := 32

def leadKeywords : List Text :=
  ["do", "then", "else", "elif", "if", "while", "until", "\x7b",
    "!"].map String.toList

------------------------------------------------------------
-- The Segment In Progress
------------------------------------------------------------

namespace Listing

def new
    (depth : Nat)
    (first : Connector) : Listing where
  depth := depth
  out := []
  cur := { connector := first, depth := depth, tokens := [] }
  nested := []
  redirect := none
  dbracket := false
  casePattern := false

/- The list with other tokens in its segment. -/
def withTokens
    (l : Listing)
    (tokens : List Token) : Listing :=
  { l with cur := { l.cur with tokens := tokens } }

def push
    (l : Listing)
    (t : Token) : Listing :=
  l.withTokens (l.cur.tokens ++ [t])

/- Ends the segment; the next one starts with a connector. -/
def flush
    (l : Listing)
    (next : Connector) : Listing :=
  { l with
    casePattern :=
      match l.cur.tokens.head? with
      | some first => first.value == "case".toList
      | none => l.casePattern
    out :=
      l.out ++
        (if l.cur.tokens = [] then [] else [l.cur]) ++ l.nested
    cur := { connector := next, depth := l.depth, tokens := [] }
    nested := []
    redirect := none
    dbracket := false }

def inCasePattern
    (l : Listing) : Bool :=
  match l.cur.tokens.head? with
  | some t =>
      if t.value = "esac".toList then false
      else if t.value = "case".toList then true
      else l.casePattern
  | none => l.casePattern

/- A name and its parentheses. -/
def isHeader
    (v : Text) : Bool :=
  2 < v.length && "()".toList.isSuffixOf v

/- The segment holds a prefix that runs nothing itself. -/
def onlyPrefix
    (l : Listing) : Bool :=
  let timed :=
    l.cur.tokens.head?.any fun t => t.value == "time".toList
  l.cur.tokens.all fun t =>
    t.kind == .word &&
      (leadKeywords.contains t.value ||
        t.value == "time".toList ||
        timed && t.value.head? == some '-' ||
        isHeader t.value)

def finish
    (l : Listing) : List RawSegment :=
  (l.flush .semicolon).out

end Listing

------------------------------------------------------------
-- Reading The Text
------------------------------------------------------------

def Lexer.skip
    (s : Lexer)
    (n : Nat) : Lexer :=
  { s with pos := s.pos + n }

def Lexer.goto
    (s : Lexer)
    (pos : Nat) : Lexer :=
  { s with pos := pos }

variable (b : Text)

def peek
    (s : Lexer)
    (ahead : Nat) : Option Char :=
  b[s.pos + ahead]?

/- A text at a position where a character was read. -/
def startsWith
    (s : Lexer)
    (op : Text) : Bool :=
  op.isPrefixOf (b.drop s.pos)

def slice?
    (i j : Nat) : Option Text :=
  if i ≤ j ∧ j ≤ b.length then some ((b.take j).drop i)
  else none

/- A group's end past its opener, if it closes. -/
def balancedFrom
    (opener closer : Char)
    (singleQuotes : Bool) :
    Text → Nat → Nat → Option Char → Bool → Option Nat
| [], _, _, _, _ => none
| _ :: rest, i, depth, quote, true =>
    balancedFrom opener closer singleQuotes rest (i + 1) depth
      quote false
| c :: rest, i, depth, some q, false =>
    if c = '\\' ∧ q = '"' then
      balancedFrom opener closer singleQuotes rest (i + 1) depth
        (some q) true
    else
      balancedFrom opener closer singleQuotes rest (i + 1) depth
        (if c = q then none else some q) false
| c :: rest, i, depth, none, false =>
    if c = '\\' then
      balancedFrom opener closer singleQuotes rest (i + 1) depth
        none true
    else if c = '"' ∨ c = '\'' ∧ singleQuotes = true then
      balancedFrom opener closer singleQuotes rest (i + 1) depth
        (some c) false
    else if c = opener then
      balancedFrom opener closer singleQuotes rest (i + 1)
        (depth + 1) none false
    else if c = closer then
      if depth - 1 = 0 then some (i + 1)
      else
        balancedFrom opener closer singleQuotes rest (i + 1)
          (depth - 1) none false
    else
      balancedFrom opener closer singleQuotes rest (i + 1) depth
        none false

/- `skip_balanced`: the text's end when a group is open. -/
def skipBalanced
    (start : Nat)
    (opener closer : Char)
    (singleQuotes : Bool) : Nat :=
  (balancedFrom opener closer singleQuotes (b.drop start) start
    0 none false).getD b.length

def redirectOps : List Text :=
  ["&>>", "&>", "<<<", "<<-", "<<", "<>", "<&", "<", ">>", ">&",
    ">|", ">"].map String.toList

/- A file descriptor, by number or by name. -/
def isFd
    (v : Text) : Bool :=
  v != [] && v.all Char.isDigit ||
    v.head? == some '\x7b' && v.getLast? == some '\x7d'

/- A redirection operator, with an adjacent descriptor. -/
def redirect
    (s : Lexer)
    (l : Listing) : Lexer × Listing :=
  let fd :=
    l.cur.tokens.getLast?.filter fun t =>
      t.kind == .word && t.span.stop == s.pos && isFd t.value
  let start := (fd.map fun t => t.span.start).getD s.pos
  let tokens :=
    if fd.isSome then l.cur.tokens.dropLast else l.cur.tokens
  let op := (redirectOps.find? (startsWith b s)).getD ['>']
  let stop := s.pos + op.length
  (s.goto stop,
    { l.withTokens
        (tokens ++
          [{ span := ⟨start, stop⟩
             value := op
             kind := .redirectOp }]) with
      redirect := some op })

def trimStart
    (text : Text) : Text :=
  text.dropWhile RustText.isWhitespace

def trim
    (text : Text) : Text :=
  ((trimStart text).reverse.dropWhile
    RustText.isWhitespace).reverse

/- Where a heredoc's body ends, by its lines. -/
def bodyEnd
    (doc : Heredoc) : Nat → Nat → Option Nat
| 0, _ => none
| n + 1, lineStart =>
    if b.length ≤ lineStart then some b.length
    else
      let raw := (b.drop lineStart).takeWhile (· ≠ '\n')
      let lineEnd := lineStart + raw.length
      let line :=
        if doc.stripTabs then raw.dropWhile (· = '\t') else raw
      if trim line = doc.delim then
        some (min (lineEnd + 1) b.length)
      else
        -- The delimiter, and a `)` that closes what holds it.
        let trimmed := trimStart line
        let lead := line.length - trimmed.length
        if doc.delim.isPrefixOf trimmed ∧
            (trimStart (trimmed.drop doc.delim.length)).head? =
              some ')' then
          some
            (lineStart + (raw.length - line.length) + lead +
              doc.delim.length)
        else bodyEnd doc n (lineEnd + 1)

def bodies : List Heredoc → Lexer → Option Lexer
| [], s => some s
| doc :: rest, s =>
    (bodyEnd b doc (b.length + 1) s.pos).bind fun stop =>
      bodies rest
        { s.goto stop with
          excluded := s.excluded ++ [⟨s.pos, stop⟩] }

/- The bodies queued on the line just ended. -/
def heredocBodies
    (s : Lexer) : Option Lexer :=
  bodies b s.heredocs { s with heredocs := [] }

------------------------------------------------------------
-- The Arms Of A List
------------------------------------------------------------

/- What the loop over a list does at a character. -/
inductive ListStep
| go (s : Lexer) (l : Listing)
| word
| paren
| done (s : Lexer) (l : Listing)

/- A word of the text from here to a position. -/
def pushRaw
    (s : Lexer)
    (l : Listing)
    (stop : Nat) : Option (Lexer × Listing) :=
  (slice? b s.pos stop).map fun value =>
    (s.goto stop,
      l.push
        { span := ⟨s.pos, stop⟩
          value := value
          kind := .word })

/- How far the text goes on with some characters. -/
def runOf
    (p : Char → Bool)
    (pos : Nat) : Nat :=
  pos + ((b.drop pos).takeWhile p).length

def separatorLen
    (s : Lexer) : Nat :=
  (([";;&", ";;", ";&"].map String.toList).find?
    (startsWith b s)).elim 1 List.length

def semicolonArm
    (s : Lexer)
    (l : Listing) : Lexer × Listing :=
  let n := separatorLen b s
  let l := l.flush .semicolon
  (s.skip n,
    if 1 < n then { l with casePattern := true } else l)

def ampersandArm
    (s : Lexer)
    (l : Listing) : Lexer × Listing :=
  if startsWith b s "&&".toList then (s.skip 2, l.flush .and)
  else if startsWith b s "&>".toList then redirect b s l
  else (s.skip 1, l.flush .background)

def pipeArm
    (s : Lexer)
    (l : Listing) : Lexer × Listing :=
  if startsWith b s "||".toList then (s.skip 2, l.flush .or)
  else if l.inCasePattern then
    (s.skip 1,
      l.push
        { span := ⟨s.pos, s.pos + 1⟩
          value := ['|']
          kind := .word })
  else
    (s.skip (if startsWith b s "|&".toList then 2 else 1),
      l.flush .pipe)

/- A `)` closes a case pattern, the list, or a segment. -/
def closeArm
    (s : Lexer)
    (l : Listing)
    (term : Term) : ListStep :=
  if l.inCasePattern then
    .go (s.skip 1)
      (Listing.flush
        { l.withTokens [] with casePattern := false }
        .semicolon)
  else if term = .paren then .done (s.skip 1) l
  else .go (s.skip 1) (l.flush .semicolon)

def listStep
    (s : Lexer)
    (l : Listing)
    (term : Term)
    (c : Char) : Option ListStep :=
  if c = ' ' ∨ c = '\t' ∨ c = '\r' then
    some (.go (s.skip 1) l)
  else if c = '\\' ∧ peek b s 1 = some '\n' then
    some (.go (s.skip 2) l)
  else if c = '\n' then
    -- A newline after a lone prefix continues the segment.
    (heredocBodies b (s.skip 1)).map fun s =>
      .go s (if l.onlyPrefix then l else l.flush .newline)
  else if c = '#' then
    some (.go (s.goto (runOf b (· ≠ '\n') s.pos)) l)
  else if "&|<>()".toList.contains c ∧ l.dbracket then
    (pushRaw b s l
      (runOf b "&|<>()".toList.contains s.pos)).map
        fun r => .go r.1 r.2
  else if c = ';' then
    let r := semicolonArm b s l
    some (.go r.1 r.2)
  else if c = '&' then
    let r := ampersandArm b s l
    some (.go r.1 r.2)
  else if c = '|' then
    let r := pipeArm b s l
    some (.go r.1 r.2)
  else if c = '<' ∨ c = '>' then
    if peek b s 1 = some '(' then some .word
    else
      let r := redirect b s l
      some (.go r.1 r.2)
  else if c = '(' then some .paren
  else if c = ')' then some (closeArm s l term)
  else if c = '\u0060' ∧ term = .backtick then
    some (.done (s.skip 1) l)
  else some .word

/- What `open_paren` does: go on, or read a subshell. -/
inductive ParenStep
| go (s : Lexer) (l : Listing)
| subshell (s : Lexer) (l : Listing)

/- A group is put to the word it stands at, or is its own. -/
def groupArm
    (s : Lexer)
    (l : Listing) : Option (Lexer × Listing) :=
  let stop := skipBalanced b s.pos '(' ')' true
  (slice? b s.pos stop).map fun raw =>
    (s.goto stop,
      match l.cur.tokens.getLast? with
      | some last =>
          if last.span.stop = s.pos ∨ raw = "()".toList then
            l.withTokens
              (l.cur.tokens.dropLast ++
                [{ last with
                   value := last.value ++ raw
                   span := ⟨last.span.start, stop⟩ }])
          else
            l.push
              { span := ⟨s.pos, stop⟩, value := raw, kind := .word }
      | none =>
          l.push
            { span := ⟨s.pos, stop⟩, value := raw, kind := .word })

def parenStep
    (s : Lexer)
    (l : Listing) : Option ParenStep :=
  if l.inCasePattern then some (.go (s.skip 1) l)
  else if !l.onlyPrefix then
    (groupArm b s l).map fun r => .go r.1 r.2
  else if peek b s 1 = some '(' then
    (pushRaw b s l (skipBalanced b s.pos '(' ')' true)).map
      fun r => .go r.1 r.2
  else some (.subshell (s.skip 1) (l.withTokens []))

------------------------------------------------------------
-- The Arms Of A Word
------------------------------------------------------------

/- What the loop over a word, or a quoted part of it, does. -/
inductive WordStep
| done (s : Lexer)
| go (s : Lexer) (val : Text)
| process
| backtick
| quoted
| dollar

def escape
    (s : Lexer)
    (val : Text) : Lexer × Text :=
  match peek b s 1 with
  | some '\n' => (s.skip 2, val)
  | some c => (s.skip 2, val ++ [c])
  | none => (s.skip 1, val)

/- A single-quoted part, or the rest of an unclosed one. -/
def singleQuoted
    (s : Lexer)
    (val : Text) : Option (Lexer × Text) :=
  let stop := runOf b (· ≠ '\'') (s.pos + 1)
  (slice? b (s.pos + 1) stop).map fun part =>
    (s.goto (min (stop + 1) b.length), val ++ part)

def wordStep
    (s : Lexer)
    (term : Term)
    (start : Nat)
    (val : Text)
    (c : Char) : Option WordStep :=
  if " \t\r\n;&|)".toList.contains c then some (.done s)
  else if c = '<' ∨ c = '>' then
    if s.pos = start ∧ peek b s 1 = some '(' then
      some .process
    else some (.done s)
  else if c = '(' then
    -- An array or a glob's group stays in the word.
    if val.getLast?.any "=@?*+!".toList.contains then
      let stop := skipBalanced b s.pos '(' ')' true
      (slice? b s.pos stop).map fun raw =>
        .go (s.goto stop) (val ++ raw)
    else some (.done s)
  else if c = '\u0060' then
    some (if term = .backtick then .done s else .backtick)
  else if c = '\\' then
    let r := escape b s val
    some (.go r.1 r.2)
  else if c = '\'' then
    (singleQuoted b s val).map fun r => .go r.1 r.2
  else if c = '"' then some .quoted
  else if c = '$' then some .dollar
  else some (.go (s.skip 1) (val ++ [c]))

def quoteStep
    (s : Lexer)
    (term : Term)
    (val : Text)
    (c : Char) : WordStep :=
  if c = '"' then .done (s.skip 1)
  else if c = '\\' then
    match peek b s 1 with
    | some n =>
        if n = '\n' then .go (s.skip 2) val
        else if n = '$' ∨ n = '\u0060' ∨ n = '"' ∨ n = '\\' then
          .go (s.skip 2) (val ++ [n])
        else .go (s.skip 1) (val ++ ['\\'])
    | none => .go (s.skip 1) (val ++ ['\\'])
  else if c = '$' then .dollar
  else if c = '\u0060' then
    if term = .backtick then .done s else .backtick
  else .go (s.skip 1) (val ++ [c])

/- An escape of an ANSI-C string, decoded if it is known. -/
def ansiEscape
    (e : Char) : Text :=
  if e = 'n' then ['\n']
  else if e = 't' then ['\t']
  else if e = 'r' then ['\r']
  else if e = '\\' ∨ e = '\'' ∨ e = '"' ∨ e = '?' then [e]
  else ['\\', e]

/- An ANSI-C string's characters, and where it ends. -/
def ansiFrom : Text → Nat → Text → Nat × Text
| [], pos, val => (pos, val)
| [c], pos, val =>
    if c = '\'' then (pos + 1, val)
    else if c = '\\' then (pos + 2, val ++ ['\\'])
    else (pos + 1, val ++ [c])
| c :: e :: rest, pos, val =>
    if c = '\'' then (pos + 1, val)
    else if c = '\\' then
      ansiFrom rest (pos + 2) (val ++ ansiEscape e)
    else ansiFrom (e :: rest) (pos + 1) (val ++ [c])

/- What `dollar` does: go on, or read a substitution. -/
inductive DollarStep
| done (s : Lexer) (val : Text)
| sub

/- A balanced part is kept raw, from its dollar sign on. -/
def rawGroup
    (s : Lexer)
    (val : Text)
    (stop : Nat) : Option DollarStep :=
  (slice? b s.pos stop).map fun raw =>
    .done (s.goto stop) (val ++ raw)

def dollarStep
    (s : Lexer)
    (val : Text)
    (inDquote : Bool) : Option DollarStep :=
  match peek b s 1 with
  | some c =>
      if c = '(' then
        if peek b s 2 = some '(' then
          rawGroup b s val
            (skipBalanced b (s.pos + 1) '(' ')' !inDquote)
        else some .sub
      else if c = '\x7b' then
        rawGroup b s val
          (skipBalanced b (s.pos + 1) '\x7b' '\x7d' !inDquote)
      else if (c = '\'' ∨ c = '"') ∧ inDquote then
        some (.done (s.skip 1) (val ++ ['$']))
      else if c = '\'' then
        let r := ansiFrom (b.drop (s.pos + 2)) (s.pos + 2) val
        some (.done (s.goto (min r.1 b.length)) r.2)
      else if c = '"' then some (.done (s.skip 1) val)
      else some (.done (s.skip 1) (val ++ ['$']))
  | none => some (.done (s.skip 1) (val ++ ['$']))

/- A word's kind: a waiting operator takes it as its target. -/
def wordEnd
    (s : Lexer)
    (l : Listing)
    (start : Nat)
    (val : Text) : Option (Lexer × Listing) :=
  (slice? b start s.pos).map fun raw =>
    match l.redirect with
    | some op =>
        ({ s with
           heredocs :=
             if op = "<<".toList ∨ op = "<<-".toList then
               s.heredocs ++ [⟨val, op == "<<-".toList⟩]
             else s.heredocs },
          { l.push
              { span := ⟨start, s.pos⟩
                value := val
                kind := .redirectTarget } with
            redirect := none })
    | none =>
        -- Only an unquoted `[[` or `]]` opens or closes a test.
        let leads :=
          l.cur.tokens.all fun t => leadKeywords.contains t.value
        (s,
          { l.push
              { span := ⟨start, s.pos⟩
                value := val
                kind := .word } with
            dbracket :=
              if raw = "[[".toList then leads || l.dbracket
              else if raw = "]]".toList then false
              else l.dbracket })

------------------------------------------------------------
-- Lists And Words
------------------------------------------------------------

/- Past the depth cap a nested list is skipped. -/
def skipList
    (s : Lexer)
    (term : Term) : Lexer :=
  s.goto
    (match term with
    | .paren => skipBalanced b (s.pos - 1) '(' ')' true
    | .backtick =>
        min (runOf b (· ≠ '\u0060') s.pos + 1) b.length
    | .eof => b.length)

mutual

/- `Lexer::list`, from a segment in progress. -/
def listFrom :
    Nat → Lexer → Listing → Term →
      Option (Lexer × List RawSegment)
| 0, _, _, _ => none
| n + 1, s, l, term =>
    match b[s.pos]? with
    | none => some (s, l.finish)
    | some c =>
        (listStep b s l term c).bind fun step =>
          match step with
          | .go s l => listFrom n s l term
          | .word =>
              (word n s l term).bind fun r =>
                listFrom n r.1 r.2 term
          | .paren =>
              (openParen n s l).bind fun r =>
                listFrom n r.1 r.2 term
          | .done s l => some (s, l.finish)

/- `sub_list`: a nested list, after its opener. -/
def subList :
    Nat → Lexer → Nat → Connector → Term →
      Option (Lexer × List RawSegment)
| 0, _, _, _, _ => none
| n + 1, s, depth, first, term =>
    if depth + 1 < maxDepth then
      listFrom n s (Listing.new (depth + 1) first) term
    else some (skipList b s term, [])

def openParen :
    Nat → Lexer → Listing → Option (Lexer × Listing)
| 0, _, _ => none
| n + 1, s, l =>
    (parenStep b s l).bind fun step =>
      match step with
      | .go s l => some (s, l)
      | .subshell s l =>
          (subList n s l.depth .subshell .paren).map fun r =>
            (r.1, { l with out := l.out ++ r.2 })

def word :
    Nat → Lexer → Listing → Term → Option (Lexer × Listing)
| 0, _, _, _ => none
| n + 1, s, l, term =>
    (wordFrom n s l term s.pos []).bind fun r =>
      if r.1.pos = s.pos then some (r.1.skip 1, r.2.1)
      else wordEnd b r.1 r.2.1 s.pos r.2.2

def wordFrom :
    Nat → Lexer → Listing → Term → Nat → Text →
      Option (Lexer × Listing × Text)
| 0, _, _, _, _, _ => none
| n + 1, s, l, term, start, val =>
    match b[s.pos]? with
    | none => some (s, l, val)
    | some c =>
        (wordStep b s term start val c).bind fun step =>
          match step with
          | .done s => some (s, l, val)
          | .go s val => wordFrom n s l term start val
          | .process =>
              (substitution n s (s.skip 2) l .paren val).bind
                fun r => wordFrom n r.1 r.2.1 term start r.2.2
          | .backtick =>
              (substitution n s (s.skip 1) l .backtick
                val).bind
                  fun r => wordFrom n r.1 r.2.1 term start r.2.2
          | .quoted =>
              (quotedFrom n (s.skip 1) l term val).bind
                fun r => wordFrom n r.1 r.2.1 term start r.2.2
          | .dollar =>
              (dollar n s l val false).bind
                fun r => wordFrom n r.1 r.2.1 term start r.2.2

/- A substitution's list, and its text put to the word. -/
def substitution :
    Nat → Lexer → Lexer → Listing → Term → Text →
      Option (Lexer × Listing × Text)
| 0, _, _, _, _, _ => none
| n + 1, s, inside, l, term, val =>
    (subList n inside l.depth .commandSubstitution term).bind
      fun r =>
        (slice? b s.pos r.1.pos).map fun raw =>
          (r.1, { l with nested := l.nested ++ r.2 }, val ++ raw)

/- `double_quoted`, past its opening quote. -/
def quotedFrom :
    Nat → Lexer → Listing → Term → Text →
      Option (Lexer × Listing × Text)
| 0, _, _, _, _ => none
| n + 1, s, l, term, val =>
    match b[s.pos]? with
    | none => some (s, l, val)
    | some c =>
        match quoteStep b s term val c with
        | .done s => some (s, l, val)
        | .go s val => quotedFrom n s l term val
        | .dollar =>
            (dollar n s l val true).bind
              fun r => quotedFrom n r.1 r.2.1 term r.2.2
        | _ =>
            (substitution n s (s.skip 1) l .backtick val).bind
              fun r => quotedFrom n r.1 r.2.1 term r.2.2

def dollar :
    Nat → Lexer → Listing → Text → Bool →
      Option (Lexer × Listing × Text)
| 0, _, _, _, _ => none
| n + 1, s, l, val, inDquote =>
    (dollarStep b s val inDquote).bind fun step =>
      match step with
      | .done s val => some (s, l, val)
      | .sub => substitution n s (s.skip 2) l .paren val

end

structure Lexed where
  segments : List RawSegment
  excluded : List Span
deriving DecidableEq, Repr

/- Enough steps for a text: each takes a character on. -/
def lexSteps : Nat :=
  8 * b.length + 16

def lex
    (depth : Nat) : Option Lexed :=
  (listFrom b (lexSteps b)
    { pos := 0, heredocs := [], excluded := [] }
    (Listing.new depth .start) .eof).map fun r =>
      { segments := r.2, excluded := r.1.excluded }

end Command
