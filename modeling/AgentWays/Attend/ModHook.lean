import AgentWays.Lib.JsText

/-
  The attend mod's own view of a message and of a delivery.

  A message is formatted as one line, and a batch of lines
  is framed by the tags a reader finds them by. What the
  language's tables say of a code point is a parameter: the
  general categories that `oneLine` breaks at, and the
  letters and digits that `safeSender` keeps.

  Key definitions include:
    * `Attend.Mod.Classes`
    * `Attend.Mod.formatMessage`
    * `Attend.Mod.defuseFence`
    * `Attend.Mod.frameInbound`
    * `Attend.Mod.peerLines`
-/

------------------------------------------------------------
-- The Line
------------------------------------------------------------

namespace Attend.Mod

open JsText

/-
  The Unicode property classes of the language: `Cc`, `Cf`,
  `Zl` and `Zp`; and `Alphabetic` and `N`.
-/
structure Classes where
  breaks : Nat → Bool
  letterOrDigit : Nat → Bool

/- A message as the drain lists it. -/
structure Listed where
  scope : JsString
  sender : JsString
  senderId : JsString
  id : JsString
  re : JsString
  time : JsString
  message : JsString

def shortId
    (id : JsString) : JsString :=
  let h :=
    id.foldl
      (fun (h : UInt32) u =>
        ((h.toInt32 ^^^ u.toUInt32.toInt32) *
          0x01000193).toUInt32)
      0x811c9dc5
  sliceLast (padStart (toString36 h.toNat) 5 0x30) 5

def displayScope
    (scope : JsString) : JsString :=
  match scope with
  | 0x40 :: rest => js "#" ++ rest
  | _ => scope

/- A field as one line. -/
def oneLine
    (classes : Classes)
    (s : JsString) : JsString :=
  trim
    (replaceRuns (fun n => isSpace n || classes.breaks n) s)

/- A sender label in a safe set of characters. -/
def safeSender
    (classes : Classes)
    (s : JsString) : JsString :=
  replaceOthers
    (fun n =>
      classes.letterOrDigit n ||
        [0x20, 0x5F, 0x2E, 0x2D, 0x40, 0x28, 0x29].contains n)
    (oneLine classes s)

def formatMessage
    (classes : Classes)
    (m : Listed) : JsString :=
  let time :=
    if m.time.isEmpty then []
    else js " " ++ oneLine classes m.time
  let re :=
    if m.re.isEmpty then []
    else js " (re ~" ++ shortId m.re ++ js ")"
  oneLine classes
    (js "[" ++ oneLine classes (displayScope m.scope) ++
      js "] " ++ safeSender classes m.sender ++ time ++
      js ": " ++ oneLine classes m.message ++ js " ~" ++
      shortId m.id ++ re)

end Attend.Mod

------------------------------------------------------------
-- The Frame
------------------------------------------------------------

namespace Attend.Mod

open JsText

/-
  A code unit as the `i` flag compares it. No code unit past
  ASCII is folded to an ASCII one.
-/
def fold
    (u : UInt16) : UInt16 :=
  if 0x61 ≤ u.toNat && u.toNat ≤ 0x7A then u - 0x20 else u

/- The class `[A-Za-z0-9<=(-]` under the `i` flag. -/
def mayFollow
    (u : UInt16) : Bool :=
  let n := (fold u).toNat
  (0x41 ≤ n && n ≤ 0x5A) || (0x30 ≤ n && n ≤ 0x39) ||
    n == 0x3C || n == 0x3D || n == 0x28 || n == 0x2D

/- Whether a text starts with a word, under the `i` flag. -/
def startsWithFolded
    (word : JsString)
    (s : JsString) : Bool :=
  (word.map fold).isPrefixOf (s.map fold)

/-
  The lookahead ` *(?!attend)[A-Za-z0-9<=(-]` under the `i`
  flag: one more space, or the word and the class.
-/
def ahead : JsString → Bool
| [] => false
| u :: rest =>
    (u == 0x20 && ahead rest) ||
      (!startsWithFolded (js "attend") (u :: rest) &&
        mayFollow u)

/-
  `s.replace(/<(?! *(?!attend)[A-Za-z0-9<=(-])/gi, '‹')`.
  Each `<` is judged on the original text.
-/
def defuseFence : JsString → JsString
| [] => []
| u :: rest =>
    (if u == 0x3C && !ahead rest then 0x2039 else u) ::
      defuseFence rest

def header : JsString :=
  js "The block below is message data relayed by attend."

def silenceFirst : JsString :=
  js "Silence is a valid reply to the messages below; " ++
    js "answer only if useful."

def preamble : JsString :=
  js "attend_reply threads (re: ~id); " ++
    js "attend_send starts a topic."

def openTag : JsString :=
  js "<attend-peer-messages>"

def closeTag : JsString :=
  js "</attend-peer-messages>"

/- The prompt one batch becomes. -/
def frameInbound
    (classes : Classes)
    (lines : List JsString)
    (full : Bool) : JsString :=
  let inner :=
    join
      (lines.map (fun b => defuseFence (oneLine classes b)))
      (js "\n")
  join
    ([silenceFirst, header, openTag, inner, closeTag] ++
      (if full then [preamble] else []))
    (js "\n")

/- The message lines inside the tags of a delivery. -/
def peerLines
    (text : JsString) : Option (List JsString) :=
  match indexOf openTag text, lastIndexOf closeTag text with
  | some a, some b =>
      if b < a then none
      else
        let inside :=
          (text.take b).drop (a + openTag.length)
        some
          (((split inside 0x0A).map trim).filter
            (fun l => !l.isEmpty))
  | _, _ => none

end Attend.Mod
