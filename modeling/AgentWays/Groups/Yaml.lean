import AgentWays.Lib.KeyMap
import AgentWays.Lib.RustText
import Mathlib.Data.String.Basic

/-
  The channel state file `_groups.yaml`.

  A channel has a pinned flag, its members in the order they
  came and a description of one line. The file is written
  name by name and read line by line: the reader keys on how
  far a line is indented and on the colon at its end, and
  carries the channel it is in until the next one starts.

  Key definitions include:
    * `Groups.GroupEntry`
    * `Groups.validateGroupName`
    * `Groups.validateMemberId`
    * `Groups.normalizeDescription`
    * `Groups.isAgentMember`
    * `Groups.parseGroupsYaml`
    * `Groups.serializeGroupsYaml`
-/

------------------------------------------------------------
-- Entries
------------------------------------------------------------

namespace Groups

open RustText

/- Group membership entry. -/
structure GroupEntry where
  pinned : Bool
  members : List String
  description : Option String
deriving DecidableEq

/- The entry `Default` gives. -/
def GroupEntry.default : GroupEntry :=
  { pinned := false
    members := []
    description := none }

/- The channels of the state file, by name. -/
abbrev GroupState := KeyMap String GroupEntry

/- `str::contains` with a character. -/
def hasChar
    (s : String)
    (c : Char) : Bool :=
  s.toList.contains c

def validateGroupName
    (name : String) : Except String Unit :=
  if name.isEmpty then
    .error "group name cannot be empty"
  else if startsWith name "_" || startsWith name "@" then
    .error "group name cannot start with _ or @"
  else if hasChar name '/' || hasChar name ' ' then
    .error "group name cannot contain / or spaces"
  else if hasChar name '#' || hasChar name ':' then
    .error "group name cannot contain # or :"
  else if name = "broadcast" || name = "open" then
    .error ("'" ++ name ++ "' is reserved")
  else .ok ()

/- A member id a record can be named for. -/
def validateMemberId
    (member : String) : Except String Unit :=
  if member.isEmpty || hasChar member '/' ||
      hasChar member '\\' || startsWith member "." then
    .error ("'" ++ member ++ "' is not a member id")
  else .ok ()

/- The single-line description contract of every write. -/
def normalizeDescription
    (text : String) : Except String (Option String) :=
  if text.toList.any isControl then
    .error "description must be a single line of printable text"
  else
    let t := trim text
    .ok (if t.isEmpty then none else some t)

/- `u8::is_ascii_hexdigit`. -/
def isHexDigit
    (c : Char) : Bool :=
  c.isDigit || ('a' ≤ c && c ≤ 'f') || ('A' ≤ c && c ≤ 'F')

/-
  Member-kind discriminator: a session id or the `pid-`
  fallback is an agent's, any other id a human's.
-/
def isAgentMember
    (id : String) : Bool :=
  startsWith id "pid-" ||
    (let parts := split id '-'
    parts.length == 5 &&
      (List.zip [8, 4, 4, 4, 12] parts).all
        (fun p =>
          p.2.utf8ByteSize == p.1 &&
            p.2.toList.all isHexDigit))

end Groups

------------------------------------------------------------
-- The Writer
------------------------------------------------------------

namespace Groups

/- The line of a description, when there is one. -/
def descriptionLine : Option String → String
| some d => "  description: " ++ d ++ "\n"
| none => ""

theorem descriptionLine_some
    (d : String) :
    descriptionLine (some d) =
      "  description: " ++ d ++ "\n" := rfl

theorem descriptionLine_none :
    descriptionLine none = "" := rfl

/- The lines of one channel. -/
def serializeEntry
    (name : String)
    (entry : GroupEntry) : String :=
  name ++ ":" ++ "\n" ++
    ("  pinned: " ++ toString entry.pinned ++ "\n" ++
      (descriptionLine entry.description ++
        ("  members:" ++ "\n" ++
          String.join
            (entry.members.map
              (fun m => "    - " ++ m ++ "\n")))))

def serializeGroupsYaml
    (state : GroupState) : String :=
  String.join
    (state.entries.map (fun e => serializeEntry e.1 e.2))

end Groups

------------------------------------------------------------
-- The Reader
------------------------------------------------------------

namespace Groups

open RustText

/- The channels read, and the one being read. -/
structure YamlReader where
  rooms : GroupState
  currentRoom : Option String
  currentPinned : Bool
  currentMembers : List String
  currentDescription : Option String

/- Save the channel being read. -/
def YamlReader.save
    (r : YamlReader) : GroupState :=
  match r.currentRoom with
  | some name =>
      r.rooms.insert name
        { pinned := r.currentPinned
          members := r.currentMembers
          description := r.currentDescription }
  | none => r.rooms

/- How many bytes of whitespace a line starts with. -/
def indentOf
    (line : String) : Nat :=
  line.utf8ByteSize - (trimStart line).utf8ByteSize

/- Second-level: group properties. -/
def readProperty
    (r : YamlReader)
    (trimmed : String) : YamlReader :=
  match splitOnce trimmed ':' with
  | none => r
  | some (k, v) =>
      let key := trim k
      let value := trim v
      if key = "pinned" then
        { r with currentPinned := value = "true" }
      else if key = "description" && !value.isEmpty then
        { r with currentDescription := some value }
      else r

/- Third-level: member list items. -/
def readMember
    (r : YamlReader)
    (trimmed : String) : YamlReader :=
  match stripPrefix trimmed "- " with
  | some member =>
      { r with currentMembers := r.currentMembers ++ [member] }
  | none => r

def readLine
    (r : YamlReader)
    (line : String) : YamlReader :=
  let trimmed := trim line
  if trimmed.isEmpty || startsWith trimmed "#" then r
  else
    let indent := indentOf line
    if indent = 0 && endsWith trimmed ":" then
      { rooms := r.save
        currentRoom := some (trimEndMatches trimmed ':')
        currentPinned := false
        currentMembers := []
        currentDescription := none }
    else if indent = 2 then readProperty r trimmed
    else if indent = 4 then readMember r trimmed
    else r

def YamlReader.start : YamlReader :=
  { rooms := KeyMap.empty
    currentRoom := none
    currentPinned := false
    currentMembers := []
    currentDescription := none }

def parseGroupsYaml
    (content : String) : GroupState :=
  ((lines content).foldl readLine YamlReader.start).save

end Groups
