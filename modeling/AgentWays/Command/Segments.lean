import AgentWays.Command.Lexer
import Mathlib.Algebra.GroupWithZero.Nat

/-
  Raw segments into the segments of a command: keywords
  stripped, the program found past assignments and wrappers,
  the text with the heredoc bodies cut out, and the command
  strings of `eval` and the shells parsed again.

  A segment's role, subcommand, flags and class are read off
  its words and nothing here reads them; they are left out.

  Key definitions include:
    * `Command.build`
    * `Command.CommandString.sourceSpan`
    * `Command.expand`
    * `Command.parse`
-/

------------------------------------------------------------
-- Tables
------------------------------------------------------------

namespace Command

def texts
    (words : List String) : List Text :=
  words.map String.toList

def wrappers : List Text :=
  texts
    ["sudo", "doas", "env", "nice", "time", "command", "builtin",
      "exec", "nohup", "xargs", "stdbuf", "ionice", "unbuffer",
      "timeout"]

def shells : List Text :=
  texts ["bash", "sh", "zsh", "dash", "ksh"]

def shellValueOptions : List Char := ['o', 'O']

def shellValueLongOptions : List Text :=
  texts ["--rcfile", "--init-file"]

def skipKeywords : List Text :=
  texts
    ["for", "case", "select", "done", "fi", "esac", "\x7d", "in"]

/- `VALUE_FLAGS`: a wrapper's flags that take the next word. -/
def valueFlags : List (Text × List Text) :=
  [("sudo",
      ["-u", "-g", "-C", "-D", "-h", "-p", "-r", "-t", "-U",
        "-T", "--user", "--group", "--chdir"]),
    ("doas", ["-u", "-C"]),
    ("env",
      ["-u", "-C", "-S", "--unset", "--chdir",
        "--split-string"]),
    ("nice", ["-n", "--adjustment"]),
    ("ionice",
      ["-c", "-n", "-p", "-P", "-u", "--class",
        "--classdata"]),
    ("stdbuf",
      ["-i", "-o", "-e", "--input", "--output", "--error"]),
    ("xargs",
      ["-I", "-n", "-P", "-L", "-d", "-a", "-E", "-s",
        "--max-args", "--max-procs", "--delimiter",
        "--arg-file"]),
    ("time", ["-f", "-o", "--format", "--output"]),
    ("timeout", ["-s", "-k", "--signal", "--kill-after"])].map
    fun row => (row.1.toList, texts row.2)

def takesValue
    (program flag : Text) : Bool :=
  (valueFlags.find? (fun row => row.1 == program)).any
    fun row => row.2.contains flag

------------------------------------------------------------
-- Words
------------------------------------------------------------

def isNameStart
    (c : Char) : Bool :=
  c.isAlpha || c == '_'

def isNameChar
    (c : Char) : Bool :=
  c.isAlphanum || c == '_'

/- `NAME=` or `NAME+=`, and then anything. -/
def isAssignment
    (w : Text) : Bool :=
  let before := w.takeWhile (· ≠ '=')
  let name :=
    if before.getLast? = some '+' then before.dropLast
    else before
  before.length < w.length && name.head?.any isNameStart &&
    name.tail.all isNameChar

def isDuration
    (w : Text) : Bool :=
  let digits :=
    if w.getLast?.any "smhd".toList.contains then w.dropLast
    else w
  digits != [] && digits.all fun c => c.isDigit || c == '.'

def basename
    (w : Text) : Text :=
  (w.reverse.takeWhile (· ≠ '/')).reverse

def programOk
    (p : Text) : Bool :=
  p.head?.any Char.isAlpha &&
    p.tail.all fun c =>
      c.isAlphanum || "_.+-".toList.contains c

/- The first value flag of a cluster, and if it ends it. -/
def clusterTakes
    (program : Text) : Text → Bool
| [] => false
| c :: rest =>
    if takesValue program ['-', c] then rest == []
    else clusterTakes program rest

def valueFollows
    (program t : Text)
    (next : Option Text) : Bool :=
  match next with
  | none => false
  | some n =>
      if n.head? = some '-' then false
      else if "--".toList.isPrefixOf t then
        !t.contains '=' && takesValue program t
      else
        t.head? == some '-' && clusterTakes program t.tail

section Words

variable (words : List Text)

/- Past a wrapper's flags, their values and assignments. -/
def wrapperArgs
    (wrapper : Text) : Nat → Nat → Nat
| 0, i => i
| n + 1, i =>
    match words[i]? with
    | none => i
    | some t =>
        if t.head? = some '-' then
          wrapperArgs wrapper n
            (i +
              if valueFollows wrapper t words[i + 1]? then 2
              else 1)
        else if isDuration t || isAssignment t then
          wrapperArgs wrapper n (i + 1)
        else i

/- Past each wrapper; `command -v` looks up and runs nothing. -/
def pastWrappers : Nat → Nat → Nat
| 0, i => i
| n + 1, i =>
    match words[i]? with
    | none => i
    | some w =>
        let wrapper := basename w
        if !wrappers.contains wrapper then i
        else if wrapper = "command".toList ∧
            (words[i + 1]?.any (texts ["-v", "-V"]).contains) =
              true then i
        else
          pastWrappers n
            (wrapperArgs words wrapper words.length (i + 1))

def programIndex : Nat :=
  pastWrappers words words.length
    (words.takeWhile isAssignment).length

end Words

------------------------------------------------------------
-- One Segment
------------------------------------------------------------

structure Segment where
  connector : Connector
  depth : Nat
  program : Option Text
  span : Span
  text : Text
  programAt : Nat
deriving DecidableEq, Repr

/- Past leading keywords and function headers. -/
def stripFrom
    (connector : Connector) :
    List Token → Connector × List Token
| [] => (connector, [])
| t :: rest =>
    if t.kind ≠ .word then (connector, t :: rest)
    else if leadKeywords.contains t.value then
      stripFrom
        (if t.value = "do".toList then .loopBody else connector)
        rest
    else if t.value = "function".toList then
      -- `function name [()]`
      let past := rest.drop 1
      stripFrom connector
        (past.drop
          (if past.head?.any (fun p => p.value == "()".toList)
            then 1 else 0))
    else if Listing.isHeader t.value then stripFrom connector rest
    else (connector, t :: rest)
termination_by tokens => tokens.length
decreasing_by
  · simp
  · simp only [List.length_drop, List.length_cons]
    omega
  · simp

def stripKeywords
    (connector : Connector)
    (tokens : List Token) : Option (Connector × List Token) :=
  let r := stripFrom connector tokens
  match r.2 with
  | [] => none
  | t :: _ =>
      if t.kind = .word ∧ skipKeywords.contains t.value then none
      else some r

/- The loop of `cut`, from a position on. -/
def cutFrom
    (src : Text)
    (stop : Nat) : List Span → Nat → Option Text
| [], p => slice? src p stop
| r :: rest, p =>
    if r.stop ≤ p ∨ stop ≤ r.start then cutFrom src stop rest p
    else
      (slice? src p (max r.start p)).bind fun head =>
        (cutFrom src stop rest (min r.stop stop)).map fun tail =>
          head ++ tail

/- `cut`: a span's text, the bodies cut out. -/
def cut
    (src : Text)
    (span : Span)
    (excluded : List Span) : Option Text :=
  cutFrom src span.stop excluded span.start

def cutBefore
    (pos start : Nat)
    (excluded : List Span) : Nat :=
  (excluded.map fun r => min r.stop pos - max r.start start).sum

/- `text_offset`; none where the code's subtraction fails. -/
def textOffset
    (pos : Nat)
    (span : Span)
    (excluded : List Span) : Option Nat :=
  let before := cutBefore pos span.start excluded
  if span.start ≤ pos ∧ before ≤ pos - span.start then
    some (pos - span.start - before)
  else none

/- A shell's options: where they end, and if `-c` was there. -/
def shellOptions
    (args : List Token) : Nat → Nat → Bool → Nat × Bool
| 0, i, dashC => (i, dashC)
| n + 1, i, dashC =>
    match args[i]? with
    | none => (i, dashC)
    | some t =>
        let v := t.value
        if v = "--".toList ∨ v = "-".toList then (i + 1, dashC)
        else if "--".toList.isPrefixOf v then
          shellOptions args n
            (i + 1 +
              if shellValueLongOptions.contains v then 1 else 0)
            dashC
        else if (v.head? = some '-' ∨ v.head? = some '+') ∧
            v.tail ≠ [] then
          shellOptions args n
            (i + 1 + v.tail.countP shellValueOptions.contains)
            (dashC ||
              v.head? == some '-' && v.tail.contains 'c')
        else (i, dashC)

/- The words that a program runs as a command string. -/
def commandWords
    (program : Text)
    (args : List Token) : Option (List Token) :=
  if program = "eval".toList then
    let args :=
      if args.head?.any (fun t => t.value == "--".toList) then
        args.tail
      else args
    if args = [] then none else some args
  else if !shells.contains program then none
  else
    let r := shellOptions args args.length 0 false
    if r.2 then args[r.1]?.map fun t => [t] else none

/- A built segment, with the string that it runs. -/
abbrev Built := Segment × Option (List Token)

/- `build`: no segment for what is structure alone. -/
def build
    (src : Text)
    (excluded : List Span)
    (raw : RawSegment) : Option (Option Built) :=
  match stripKeywords raw.connector raw.tokens with
  | none => some none
  | some (connector, tokens) =>
      match tokens.head?, tokens.getLast? with
      | some first, some last =>
          let span : Span := ⟨first.span.start, last.span.stop⟩
          (cut src span excluded).bind fun text =>
            let wordTokens :=
              tokens.filter fun t => t.kind == .word
            let words := wordTokens.map Token.value
            let at_ := programIndex words
            let bare : Segment :=
              { connector := connector
                depth := raw.depth
                program := none
                span := span
                text := text
                programAt := 0 }
            match wordTokens[at_]? with
            | none => some (some (bare, none))
            | some t =>
                let program := basename t.value
                if programOk program then
                  (textOffset t.span.start span excluded).map
                    fun offset =>
                      some
                        ({ bare with
                           program := some program
                           programAt := offset },
                          commandWords program
                            (wordTokens.drop (at_ + 1)))
                else some (some (bare, none))
      | _, _ => some none

------------------------------------------------------------
-- Command Strings
------------------------------------------------------------

/- A word of a command string, and where the source holds it. -/
structure StringWord where
  at_ : Nat
  len : Nat
  span : Span
  verbatim : Option Nat
deriving DecidableEq, Repr

structure CommandString where
  text : Text
  words : List StringWord
deriving DecidableEq, Repr

namespace CommandString

/- Where a word's value starts in the source as written. -/
def verbatimAt
    (raw : Text)
    (w : Token) : Option Nat :=
  if raw = w.value then some w.span.start
  else if ['\'', '"'].any fun q => raw == q :: (w.value ++ [q])
    then some (w.span.start + 1)
  else none

/- The words from one on, past the text of those before. -/
def readWords
    (src : Text) : CommandString → List Token → Option CommandString
| s, [] => some s
| s, w :: rest =>
    (slice? src w.span.start w.span.stop).bind fun raw =>
      let text := if s.words = [] then s.text else s.text ++ [' ']
      readWords src
        { text := text ++ w.value
          words := s.words ++
            [{ at_ := text.length
               len := w.value.length
               span := w.span
               verbatim := verbatimAt raw w }] } rest

def new
    (src : Text)
    (words : List Token) : Option CommandString :=
  readWords src { text := [], words := [] } words

/- The last place at which something holds. -/
def rposition
    {α : Type}
    (p : α → Bool)
    (xs : List α) : Option Nat :=
  (xs.reverse.findIdx? p).map fun i => xs.length - 1 - i

/- `source_span`; none where an index or a subtraction fails. -/
def sourceSpan
    (s : CommandString)
    (r : Span) : Option Span :=
  let first :=
    (rposition (fun w => w.at_ ≤ r.start) s.words).getD 0
  let last :=
    (s.words.findIdx? fun w => r.stop ≤ w.at_ + w.len).getD
      (s.words.length - 1)
  match s.words[first]?, s.words[last]? with
  | some a, some b =>
      match a.verbatim, b.verbatim with
      | some sa, some sb =>
          if a.at_ ≤ r.start then
            some
              ⟨sa + min (r.start - a.at_) a.len,
                sb + min (r.stop - b.at_) b.len⟩
          else none
      | _, _ => some ⟨a.span.start, b.span.stop⟩
  | _, _ => none

end CommandString

/- A list without one place, its last element put there. -/
def swapRemove
    {α : Type}
    (xs : List α)
    (i : Nat) : List α :=
  match xs.getLast? with
  | none => []
  | some last => (xs.set i last).dropLast

/- The substitution being read, and copies still to find. -/
structure Retain where
  substitution : Option Nat
  copies : List Text
deriving DecidableEq, Repr

/- Which segments of a string are no copy of an outer one. -/
def retain : Retain → List Segment → List Segment
| _, [] => []
| r, s :: rest =>
    let ends :=
      r.substitution.any fun k =>
        s.depth < k ||
          s.depth == k &&
            (s.connector == .subshell ||
              s.connector == .commandString)
    let substitution := if ends then none else r.substitution
    let substitution :=
      if substitution = none ∧
          s.connector = .commandSubstitution then
        some s.depth
      else substitution
    let copy :=
      substitution.bind fun _ =>
        r.copies.findIdx? (· == s.text)
    match copy with
    | some i =>
        retain
          { substitution := substitution
            copies := swapRemove r.copies i } rest
    | none =>
        s ::
          retain
            { substitution := substitution
              copies := r.copies } rest

/- The first of a string's segments, told as such. -/
def startString : List Segment → List Segment
| [] => []
| s :: rest =>
    (if s.connector = .start then
      { s with connector := .commandString }
    else s) :: rest

def within
    (s : Segment)
    (span : Span) : Bool :=
  span.start ≤ s.span.start && s.span.stop ≤ span.stop

/- The spans of a string's segments, in the source. -/
def mapSpans
    (string : CommandString) :
    List Segment → Option (List Segment)
| [] => some []
| s :: rest =>
    (string.sourceSpan s.span).bind fun span =>
      (mapSpans string rest).map fun more =>
        { s with span := span } :: more

/- A string's segments, the copies of outer ones dropped. -/
def commandString
    (parseAt : Text → Nat → Option (List Segment))
    (command : Text)
    (words : List Token)
    (at_ : Nat)
    (nested : List Segment) : Option (List Segment) :=
  (CommandString.new command words).bind fun string =>
    let copies :=
      (nested.filter fun s => words.any fun w => within s w.span).map
        Segment.text
    (parseAt string.text (at_ + 1)).bind fun inner =>
      mapSpans string
        (startString
          (retain { substitution := none, copies := copies }
            inner))

/- Each string's segments after the one that runs it. -/
def expand
    (parseAt : Text → Nat → Option (List Segment))
    (command : Text) :
    Nat → List Built → Option (List Segment)
| 0, _ => none
| _ + 1, [] => some []
| n + 1, (segment, none) :: rest =>
    (expand parseAt command n rest).map fun more =>
      segment :: more
| n + 1, (segment, some words) :: rest =>
    let inside := fun r : Built =>
      segment.depth < r.1.depth && within r.1 segment.span
    (expand parseAt command n (rest.takeWhile inside)).bind
      fun nested =>
        (if segment.depth + 1 < maxDepth then
          commandString parseAt command words segment.depth nested
        else some []).bind
          fun inner =>
            (expand parseAt command n
              (rest.dropWhile inside)).map
                fun more => segment :: (nested ++ inner ++ more)

def buildAll
    (src : Text)
    (excluded : List Span) :
    List RawSegment → Option (List Built)
| [] => some []
| raw :: rest =>
    (build src excluded raw).bind fun built =>
      (buildAll src excluded rest).map fun more =>
        built.toList ++ more

/- `parse_at`; a command string lies one level deeper. -/
def parseAt : Nat → Text → Nat → Option (List Segment)
| 0, _, _ => none
| n + 1, command, depth =>
    (lex command depth).bind fun lexed =>
      (buildAll command lexed.excluded lexed.segments).bind
        fun built =>
          expand (parseAt n) command (built.length + 1) built

def parse
    (command : Text) : Option (List Segment) :=
  parseAt maxDepth command 0

end Command
