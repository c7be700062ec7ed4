import AgentWays.Lib.RustText
import AgentWays.Lib.SortDedup
import Mathlib.Data.Char

/-
  Where a line of the chat goes: the recipients it is
  addressed to, the commands that go nowhere, the views it
  is written in and the key of its route.

  Key definitions include:
    * `Chat.parseAddressed`
    * `Chat.slashParse`
    * `Chat.slashPartial`
    * `Chat.Tab`, `Chat.normalize`, `Chat.sendScope`
    * `Chat.route`
    * `Chat.destination`
-/

------------------------------------------------------------
-- Addressed Lines
------------------------------------------------------------

namespace Chat

open RustText

/- A text by its characters. -/
abbrev Text := List Char

/- A recipient a line names at its start. -/
inductive Addressed
| agent (name : Text)
| group (name : Text)
deriving DecidableEq, Repr

def isNameChar
    (c : Char) : Bool :=
  c.isAlphanum || c == '-'

/-
  What follows a sigil: a name of one character or more with
  whitespace or the end of the text after it.
-/
def nameAfter
    (kind : Text → Addressed)
    (rest : Text) : Option (Addressed × Text) :=
  let name := rest.takeWhile isNameChar
  if name.isEmpty then none
  else
    match rest.dropWhile isNameChar with
    | [] => some (kind name, [])
    | c :: tail =>
        if isWhitespace c then
          some (kind name,
            (c :: tail).dropWhile isWhitespace)
        else none

/- The mention a text starts with, and what follows it. -/
def mention : Text → Option (Addressed × Text)
| '@' :: rest => nameAfter .agent rest
| '#' :: rest => nameAfter .group rest
| _ => none

/- The run of mentions, with fuel for each character. -/
def addressedFrom : Nat → Text → List Addressed
| 0, _ => []
| fuel + 1, rest =>
    match mention rest with
    | none => []
    | some (recipient, tail) =>
        recipient :: addressedFrom fuel tail

/- `parse_addressed`. -/
def parseAddressed
    (msg : Text) : List Addressed :=
  addressedFrom msg.length (msg.dropWhile isWhitespace)

------------------------------------------------------------
-- Slash Commands
------------------------------------------------------------

/- The text after a leading `/`. -/
def afterSlash
    (input : Text) : Option Text :=
  match input.dropWhile isWhitespace with
  | '/' :: rest => some rest
  | _ => none

/- `slash::parse`: a command's name and its arguments. -/
def slashParse
    (input : Text) : Option (Text × Text) :=
  (afterSlash input).bind fun rest =>
    let name := rest.takeWhile (fun c => !isWhitespace c)
    if name.isEmpty then none
    else
      some (name,
        (rest.dropWhile
          (fun c => !isWhitespace c)).dropWhile isWhitespace)

/- `slash::find_slash_partial`: a name still being typed. -/
def slashPartial
    (input : Text) : Option Text :=
  (afterSlash input).bind fun rest =>
    if rest.any isWhitespace then none else some rest

/- Neither a command nor one being typed. -/
def isMessage
    (text : Text) : Bool :=
  (slashParse text).isNone && (slashPartial text).isNone

------------------------------------------------------------
-- Views
------------------------------------------------------------

/- `tabs::Tab`. -/
inductive Tab
| merged
| channel (name : Text)
| dm (member : Text)
| review (member : Text)
deriving DecidableEq, Repr

/- `BASE_CHANNEL_NAME`. -/
def baseChannel : Text := "open".toList

/- `Tab::composes`: every view but an agent's own messages. -/
def Tab.composes : Tab → Bool
| .review _ => false
| _ => true

/- `tabs::normalize`: a channel that is gone is `#open`. -/
def normalize
    (tab : Tab)
    (names : List Text) : Tab :=
  match tab with
  | .channel g => if g ∈ names then .channel g
      else .channel baseChannel
  | t => t

/- `tabs::send_scope`. -/
def sendScope : Tab → Text
| .channel g => g
| _ => baseChannel

def Tab.isChannel : Tab → Bool
| .channel _ => true
| _ => false

------------------------------------------------------------
-- Routes
------------------------------------------------------------

section Routes

/- `str::to_lowercase`, of names that the chat folds. -/
variable (lower : Text → Text)

/- A recipient as a route names it. -/
def Addressed.key : Addressed → Text
| .agent n => '@' :: lower n
| .group n => '#' :: lower n

def Addressed.isAgent : Addressed → Bool
| .agent _ => true
| .group _ => false

def Addressed.isGroup : Addressed → Bool
| .agent _ => false
| .group _ => true

/- The key of a run of recipients written from a view. -/
def routeKey
    (recipients : List Addressed)
    (scope : Text)
    (inChannel : Bool) : Text :=
  let names :=
    SortDedup.sorted (recipients.map (Addressed.key lower))
  let listed := [' '].intercalate names
  let room := '#' :: lower scope
  if recipients.isEmpty then "post ".toList ++ room
  else if inChannel &&
      recipients.all Addressed.isAgent then
    "in ".toList ++ room ++ ' ' :: listed
  else if recipients.all Addressed.isGroup then
    "post ".toList ++ listed
  else "to ".toList ++ listed

/- `route`: none for a slash command. -/
def route
    (text scope : Text)
    (inChannel : Bool) : Option Text :=
  if isMessage text then
    some
      (routeKey lower (parseAddressed text) scope inChannel)
  else none

/- `ChatPane::destination`. -/
def destination
    (text : Text)
    (fg : Tab) : Option Text :=
  match fg with
  | .dm member =>
      if (parseAddressed text).isEmpty && isMessage text then
        some ("dm ".toList ++ member)
      else route lower text (sendScope fg) fg.isChannel
  | _ => route lower text (sendScope fg) fg.isChannel

end Routes

end Chat
