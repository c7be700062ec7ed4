import AgentWays.Lib.RustText
import AgentWays.Lib.Utf8
import AgentWays.Lib.Words
import AgentWays.Scan.Order
import Mathlib.Algebra.GroupWithZero.Nat

/-
  The reduction of a text to what an embedding model takes
  in: the sentences that say most, within a budget of tokens,
  or the heaviest tokens where there are no sentences.

  A text is the list of its characters. Weights are elements
  of a linear order, and how they are computed is given.

  Key definitions include:
    * `Scan.approxTokens`
    * `Scan.splitSentences`
    * `Scan.reduceBySentences`
    * `Scan.reduceForEmbed`
-/

------------------------------------------------------------
-- Tokens
------------------------------------------------------------

namespace Scan

open RustText (isWhitespace)

abbrev Text := List Char

/- What the Unicode tables say of characters. -/
structure Letters where
  isAlphanumeric : Char → Bool
  toLowercase : Text → Text

/- The floating-point part: a softmax, and a sum over a count. -/
structure Weighing (W : Type) where
  softmax : (Text → Nat) → Text → Option W
  mean : List W → Nat → W
  zero : W

def charsPerToken : Nat := 4

def stopwords : List String :=
  ["the", "a", "an", "and", "or", "but", "is", "are", "was",
   "were", "be", "been", "being", "have", "has", "had", "do",
   "does", "did", "will", "would", "should", "could", "may",
   "might", "must", "can", "to", "of", "in", "on", "at", "by",
   "for", "with", "as", "from", "into", "about", "this", "that",
   "these", "those", "it", "its", "if", "then", "than", "you",
   "your", "we", "our", "they", "their", "i", "me", "my", "not",
   "no", "yes", "so", "up", "down", "out", "all", "any", "some",
   "each", "such", "only", "own", "same", "other", "more",
   "most", "very", "just", "agent", "task", "prompt", "context",
   "return", "description", "subagent", "tool", "tools", "use",
   "using", "user", "claude", "session", "project", "file",
   "files", "code", "please", "pr", "branch", "diff", "merge",
   "review", "body", "title", "summary", "scope", "report",
   "final", "plan", "approved", "approve", "result", "verdict",
   "blocker", "blockers", "suggestion", "suggestions", "nit",
   "nits", "ship"]

def trim
    (s : Text) : Text :=
  (s.dropWhile isWhitespace).rdropWhile isWhitespace

def isCjk
    (c : Char) : Bool :=
  let cp := c.toNat
  (0x3040 ≤ cp && cp ≤ 0x309F) || (0x30A0 ≤ cp && cp ≤ 0x30FF) ||
    (0x3400 ≤ cp && cp ≤ 0x4DBF) ||
    (0x4E00 ≤ cp && cp ≤ 0x9FFF) ||
    (0xAC00 ≤ cp && cp ≤ 0xD7AF) ||
    (0xF900 ≤ cp && cp ≤ 0xFAFF) ||
    (0x20000 ≤ cp && cp ≤ 0x2A6DF)

/- The greatest of three counts: words, characters, CJK. -/
def approxTokens
    (s : Text) : Nat :=
  max (max (Words.words isWhitespace s).length
    (s.length / charsPerToken)) (s.countP isCjk)

def isSeparator
    (letters : Letters)
    (c : Char) : Bool :=
  !letters.isAlphanumeric c && c != '-' && c != '_'

def tokenize
    (letters : Letters)
    (s : Text) : List Text :=
  (((s.splitOnP (isSeparator letters)).filter
    (fun t => !t.isEmpty)).map letters.toLowercase).filter
      (fun t => !(stopwords.map String.toList).contains t)

def countFrequencies
    (tokens : List Text)
    (t : Text) : Nat :=
  tokens.count t

end Scan

------------------------------------------------------------
-- Sentences
------------------------------------------------------------

namespace Scan

/- `u8::is_ascii_whitespace`. -/
def isAsciiWhitespace
    (b : UInt8) : Bool :=
  b = 32 || b = 9 || b = 10 || b = 12 || b = 13

/- A slice trimmed, left out where nothing is left of it. -/
def chunk
    (s : Text)
    (start stop : Nat) : Option (List Text) :=
  (Utf8.slice? s start stop).map
    (fun part =>
      if (trim part).isEmpty then [] else [trim part])

/-
  The sentences from a byte on, one of them open from
  `start`; none where a slice would panic.
-/
def sentencesFrom
    (s : Text)
    (bytes : List UInt8)
    (start i : Nat) : Option (List Text) :=
  if _hIndex : i < bytes.length then
    let c := bytes[i]
    let next := bytes[i + 1]?
    let isSentenceEnd :=
      (c = 46 || c = 33 || c = 63) && next.any isAsciiWhitespace
    let isParagraphBreak := c = 10 && next = some 10
    if isSentenceEnd then do
      let here ←
        (if start ≤ i + 1 then chunk s start (i + 1) else some [])
      let later ← sentencesFrom s bytes (i + 2) (i + 2)
      some (here ++ later)
    else if isParagraphBreak then do
      let here ← (if start ≤ i then chunk s start i else some [])
      let later ← sentencesFrom s bytes (i + 2) (i + 2)
      some (here ++ later)
    else sentencesFrom s bytes start (i + 1)
  else if start < bytes.length then chunk s start bytes.length
  else some []
termination_by bytes.length - i

def splitSentences
    (s : Text) : Option (List Text) :=
  sentencesFrom s (Utf8.encode s) 0 0

end Scan

------------------------------------------------------------
-- Reduction
------------------------------------------------------------

namespace Scan

variable {W : Type} [LinearOrder W]
variable (letters : Letters) (weighing : Weighing W)

/- Texts with a space between two. -/
def join
    (texts : List Text) : Text :=
  [' '].intercalate texts

/- The heaviest tokens of a text, as it has them in order. -/
def heaviest
    (tokens : List Text)
    (budget : Nat) : List Text :=
  let weights := weighing.softmax (countFrequencies tokens)
  let indexed :=
    sortBy
      (fun a b =>
        compare ((weights b.2).getD weighing.zero)
          ((weights a.2).getD weighing.zero))
      (tokens.mapIdx (fun i t => (i, t)))
  let keepIndices :=
    sortBy compare ((indexed.take budget).map Prod.fst)
  keepIndices.map (fun i => tokens.getD i [])

def reduceByTokens
    (input : Text)
    (budget : Nat) : Text :=
  if budget = 0 then input
  else
    let tokens := tokenize letters input
    if tokens.isEmpty then input.take (budget * charsPerToken)
    else join (heaviest weighing tokens budget)

/- The sentences with their places, the heaviest first. -/
def scored
    (input : Text)
    (sentences : List Text) : List (Nat × Text × W) :=
  let weights :=
    weighing.softmax (countFrequencies (tokenize letters input))
  sortBy (fun a b => compare b.2.2 a.2.2)
    (sentences.mapIdx
      (fun i s =>
        let tokens := tokenize letters s
        (i, s,
          weighing.mean (tokens.filterMap weights)
            (max tokens.length 1))))

/- The sentences taken while their estimates stay in budget. -/
def admitFrom
    (budget : Nat) :
    Nat → List (Nat × Text × W) → List (Nat × Text)
| _, [] => []
| accumulated, (i, s, _) :: rest =>
    if accumulated + approxTokens s > budget then
      admitFrom budget accumulated rest
    else
      (i, s) :: admitFrom budget (accumulated + approxTokens s) rest

/- The sentences admitted, in the order of the document. -/
def admitted
    (input : Text)
    (sentences : List Text)
    (budget : Nat) : List Text :=
  (sortBy (fun a b => compare a.1 b.1)
    (admitFrom budget 0 (scored letters weighing input sentences))).map
      Prod.snd

/- The sentence with the greatest weight. -/
def heaviestSentence
    (input : Text)
    (sentences : List Text) : Text :=
  ((scored letters weighing input sentences).head?.map
    (fun entry => entry.2.1)).getD input

def reduceBySentences
    (input : Text)
    (sentences : List Text)
    (budget : Nat) : Text :=
  let keep := admitted letters weighing input sentences budget
  if keep.isEmpty then
    reduceByTokens letters weighing
      (heaviestSentence letters weighing input sentences) budget
  else join keep

/- The text for the embedder; none where a slice would panic. -/
def reduceForEmbed
    (input : Text)
    (budget : Nat) : Option Text :=
  let trimmed := trim input
  if trimmed.isEmpty then some []
  else if approxTokens trimmed ≤ budget then some trimmed
  else do
    let sentences ← splitSentences trimmed
    if sentences.length ≤ 1 then
      some (reduceByTokens letters weighing trimmed budget)
    else
      some
        (reduceBySentences letters weighing trimmed sentences
          budget)

end Scan
