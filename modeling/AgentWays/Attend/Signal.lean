import AgentWays.Lib.RustText

/-
  The signal wire format, and what a reader asks of a
  parsed signal.

  A line is `from|project|cwd|message`, with tagged fields
  between `cwd` and the message. A header with a control
  character in it reads as nothing.

  Key definitions include:
    * `Attend.ParsedSignal`
    * `Attend.parseSignal`
    * `Attend.wireLine`
    * `Attend.formatTagged`
    * `Attend.signalFilename`
    * `Attend.ParsedSignal.senderId`
    * `Attend.ParsedSignal.trayReads`
    * `Attend.ParsedSignal.wakes`
-/

------------------------------------------------------------
-- Ids
------------------------------------------------------------

namespace Attend

open RustText

/- A character of the signal id class. -/
def isIdChar
    (c : Char) : Bool :=
  c.isAlphanum || c == '-' || c == '_'

/- An id with every other character as a hyphen. -/
def sanitizeIdComponent
    (s : String) : String :=
  String.ofList
    (s.toList.map (fun c => if isIdChar c then c else '-'))

def isValidSignalId
    (id : String) : Bool :=
  !id.toList.isEmpty && id.toList.all isIdChar

/- The value class of the tags. -/
def isTagValue
    (v : String) : Bool :=
  !v.toList.isEmpty &&
    v.toList.all
      (fun c => c.isAlphanum || decide (c ∈ "_@.,:/#*-".toList))

/- Whether signal id `re` names a message of this sender. -/
def sentBy
    (re sender : String) : Bool :=
  let stem := sanitizeIdComponent sender
  !stem.toList.isEmpty &&
    ((stripPrefix re stem).map
      (fun rest => startsWith rest "-")).getD false

/- The sender id a record without `from_id` carries. -/
def derivedSenderId
    (sender : String) : String :=
  match stripPrefix sender "claude:" with
  | some sid => sid
  | none =>
      match stripPrefix sender "external:" with
      | some rest =>
          sanitizeIdComponent
            ((split rest '@').head?.getD rest)
      | none => sender

end Attend

------------------------------------------------------------
-- Parsing
------------------------------------------------------------

namespace Attend

open RustText

/- A parsed signal line. -/
structure ParsedSignal where
  fromField : String
  project : String
  cwd : String
  replyTo : Option String
  fromKind : Option String
  fromId : Option String
  onBehalfOf : Option String
  toField : Option String
  message : String
deriving DecidableEq

/- The tags before the thread field. -/
inductive Tag where
| fromKind
| fromId
| onBehalfOf
| toField
deriving DecidableEq

def Tag.ofKey
    (key : String) : Option Tag :=
  if key = "from_kind" then some .fromKind
  else if key = "from_id" then some .fromId
  else if key = "on_behalf_of" then some .onBehalfOf
  else if key = "to" then some .toField
  else none

def ParsedSignal.slot
    (sig : ParsedSignal) : Tag → Option String
| .fromKind => sig.fromKind
| .fromId => sig.fromId
| .onBehalfOf => sig.onBehalfOf
| .toField => sig.toField

def ParsedSignal.fill
    (sig : ParsedSignal)
    (tag : Tag)
    (value : String) : ParsedSignal :=
  match tag with
  | .fromKind => { sig with fromKind := some value }
  | .fromId => { sig with fromId := some value }
  | .onBehalfOf => { sig with onBehalfOf := some value }
  | .toField => { sig with toField := some value }

/-
  The tags taken off the message, while each is a known one
  not yet seen with a value of its class. Every round fills
  an empty slot or ends, so one more round than there are
  slots is enough.
-/
def parseTags : Nat → ParsedSignal → ParsedSignal
| 0, sig => sig
| rounds + 1, sig =>
    match splitOnce sig.message '|' with
    | none => sig
    | some (seg, rest) =>
        match splitOnce seg ':' with
        | none => sig
        | some (key, value) =>
            if key = "re" ∧
                (value = "" ∨ isValidSignalId value) then
              { sig with
                replyTo :=
                  if value = "" then none else some value
                message := rest }
            else
              match Tag.ofKey key with
              | none => sig
              | some tag =>
                  if (sig.slot tag).isSome ||
                      !isTagValue value then sig
                  else
                    parseTags rounds
                      { sig.fill tag value with
                        message := rest }

/- Whitespace an older writer left in the sender. -/
def mendFrom
    (field : String) : String :=
  String.ofList
    (field.toList.map
      (fun c => if isWhitespace c then '_' else c))

def parseSignal
    (content : String) : Option ParsedSignal := do
  let (sender, afterFrom) ← splitOnce content '|'
  let (project, afterProject) ← splitOnce afterFrom '|'
  let (cwd, message) ← splitOnce afterProject '|'
  if [sender, project, cwd].any
      (fun f => f.toList.any isControl) then
    none
  else
    some
      (parseTags 5
        { fromField := mendFrom sender
          project := project
          cwd := cwd
          replyTo := none
          fromKind := none
          fromId := none
          onBehalfOf := none
          toField := none
          message := message })

/- A record without the one newline that ends it. -/
def wireLine
    (content : String) : String :=
  (stripSuffix content "\n").getD content

end Attend

------------------------------------------------------------
-- Writing
------------------------------------------------------------

namespace Attend

open RustText

/- The tagged fields a writer puts on a signal. -/
structure Envelope where
  fromKind : Option String
  fromId : Option String
  onBehalfOf : Option String
  toField : Option String
deriving DecidableEq

/- The tags a reader takes, in the order of the writer. -/
def tags : List String :=
  ["from_kind", "from_id", "on_behalf_of", "to", "re"]

/- Whether a message begins with a known tag. -/
def startsWithTag
    (message : String) : Bool :=
  tags.any
    (fun t =>
      ((stripPrefix message t).map
        (fun rest => startsWith rest ":")).getD false)

/- A header field that cannot end early. -/
def headerField
    (s : String)
    (noSpace : Bool) : String :=
  String.ofList
    (s.toList.map
      (fun c =>
        if c = '|' || isControl c ||
            (noSpace && isWhitespace c) then '_'
        else c))

/- One tag, left out when its value is not of its class. -/
def formatTag
    (key : String)
    (value : Option String) : String :=
  match value.filter isTagValue with
  | some v => key ++ ":" ++ v ++ "|"
  | none => ""

/-
  The thread field. An empty one ends the tags before a
  message that starts with a tag itself.
-/
def formatThread
    (replyTo : Option String)
    (message : String) : String :=
  match replyTo with
  | some id => "re" ++ ":" ++ id ++ "|"
  | none =>
      if startsWithTag message then
        "re" ++ ":" ++ "" ++ "|"
      else ""

/- One wire line, with the newline that ends it. -/
def formatTagged
    (sender project cwd : String)
    (env : Envelope)
    (replyTo : Option String)
    (message : String) : String :=
  headerField sender true ++ "|" ++
    (headerField project false ++ "|" ++
      (headerField cwd false ++ "|" ++
        (formatTag "from_kind" env.fromKind ++
          (formatTag "from_id" env.fromId ++
            (formatTag "on_behalf_of" env.onBehalfOf ++
              (formatTag "to" env.toField ++
                (formatThread replyTo message ++
                  message))))))) ++
    "\n"

/- A signal's filename, from its sender, time and count. -/
def signalFilename
    (senderId : String)
    (nanos seq : Nat) : String :=
  sanitizeIdComponent senderId ++ "-" ++ toString nanos ++
    "-" ++ toString seq ++ ".signal"

end Attend

------------------------------------------------------------
-- Readers
------------------------------------------------------------

namespace Attend

open RustText

/- The canonical sender id. -/
def ParsedSignal.senderId
    (sig : ParsedSignal) : String :=
  match sig.fromId with
  | some id => id
  | none => derivedSenderId sig.fromField

/- Whether `to` names an id. -/
def ParsedSignal.addressedTo
    (sig : ParsedSignal)
    (id : String) : Bool :=
  (sig.toField.map (fun t => decide (id ∈ split t ','))).getD false

/- Whether the session reading as `ids` reads its tray's copy. -/
def ParsedSignal.trayReads
    (sig : ParsedSignal)
    (ids : List String) : Bool :=
  sig.toField.isNone || ids.any sig.addressedTo

/- Whether the signal starts a turn in the idle session. -/
def ParsedSignal.wakes
    (sig : ParsedSignal)
    (inTray inChannel : Bool)
    (ids : List String) : Bool :=
  inChannel || ids.any sig.addressedTo ||
    (inTray && sig.toField.isNone) ||
    (sig.replyTo.map
      (fun re => ids.any (sentBy re))).getD false

/- Whether the sender is one of the ids. -/
def ParsedSignal.isOwn
    (sig : ParsedSignal)
    (ids : List String) : Bool :=
  ((splitOnce sig.fromField ':').map
    (fun parts => decide (parts.2 ∈ ids))).getD false

end Attend
