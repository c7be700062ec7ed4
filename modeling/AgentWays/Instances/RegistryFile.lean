import AgentWays.Groups.Yaml
import AgentWays.Instances.Registry

/-
  The registry as it is kept: one file of rows for each
  project root, read and written whole.

  An operation reads the file of its project root, changes
  the rows and writes them back, all under the lock of that
  file. A registration then takes the session's row out of
  every other file. A call that fails to read or to write
  changes nothing.

  Key definitions include:
    * `Instances.parseRegistry`
    * `Instances.serializeRegistry`
    * `Instances.Op`, what is done to one file
    * `Instances.Op.edit`
    * `Instances.runOp`
    * `Instances.Call`, a call on the directory
    * `Instances.runCall`
-/

------------------------------------------------------------
-- The Writer
------------------------------------------------------------

namespace Instances

/- The line of an alias's target, when there is one. -/
def aliasLine : Option String → String
| some target => "  alias_of: " ++ target ++ "\n"
| none => ""

/- The lines of one row. -/
def serializeRow
    (sid : String)
    (e : InstanceEntry) : String :=
  sid ++ ":" ++ "\n" ++
    ("  instance: " ++ e.instanceName ++ "\n" ++
      ("  registered_at: " ++ toString e.registeredAt ++
          "\n" ++
        ("  last_seen: " ++ toString e.lastSeen ++ "\n" ++
          aliasLine e.aliasOf)))

def serializeRegistry
    (rows : Rows) : String :=
  String.join
    (rows.entries.map (fun e => serializeRow e.1 e.2))

end Instances

------------------------------------------------------------
-- The Reader
------------------------------------------------------------

namespace Instances

open RustText

/- The rows read, and the fields of the one being read. -/
structure RegistryReader where
  out : Rows
  currentSid : Option String
  currentInstance : Option String
  currentRegisteredAt : Option Nat
  currentLastSeen : Option Nat
  currentAliasOf : Option String

def RegistryReader.start : RegistryReader :=
  { out := KeyMap.empty
    currentSid := none
    currentInstance := none
    currentRegisteredAt := none
    currentLastSeen := none
    currentAliasOf := none }

/- The row being read, kept when it has an instance. -/
def RegistryReader.commitEntry
    (r : RegistryReader) : Rows :=
  match r.currentSid, r.currentInstance with
  | some sid, some name =>
      r.out.insert sid
        { instanceName := name
          registeredAt := r.currentRegisteredAt.getD 0
          lastSeen := r.currentLastSeen.getD 0
          aliasOf := r.currentAliasOf }
  | _, _ => r.out

/- A field of the row being read; others are passed over. -/
def RegistryReader.setField
    (r : RegistryReader)
    (key value : String) : RegistryReader :=
  if key = "instance" then
    { r with currentInstance := some value }
  else if key = "registered_at" then
    { r with currentRegisteredAt := parseUnsigned 64 value }
  else if key = "last_seen" then
    { r with currentLastSeen := parseUnsigned 64 value }
  else if key = "alias_of" then
    { r with currentAliasOf := some value }
  else r

def readField
    (r : RegistryReader)
    (trimmed : String) : RegistryReader :=
  match splitOnce trimmed ':' with
  | none => r
  | some (key, value) => r.setField (trim key) (trim value)

def readRow
    (r : RegistryReader)
    (line : String) : RegistryReader :=
  let trimmed := trim line
  if trimmed.isEmpty || startsWith trimmed "#" then r
  else
    let indent := Groups.indentOf line
    if indent = 0 && endsWith trimmed ":" then
      { out := r.commitEntry
        currentSid := some (trimEndMatches trimmed ':')
        currentInstance := none
        currentRegisteredAt := none
        currentLastSeen := none
        currentAliasOf := none }
    else if indent = 2 then readField r trimmed
    else r

def parseRegistry
    (content : String) : Rows :=
  ((lines content).foldl readRow
    RegistryReader.start).commitEntry

end Instances

------------------------------------------------------------
-- One File
------------------------------------------------------------

namespace Instances

/-
  What is done to one file, by the clock of the call. An
  eviction is a registration elsewhere, as this file sees
  it.
-/
inductive Op where
| register (sid : String) (gcAge : Nat) (now : UInt64)
| rename (old new : String) (now : UInt64)
| touch (sid : String) (now : UInt64)
| evict (sid : String)
deriving DecidableEq

/- The rows to write, if any, and the instance returned. -/
def Op.edit
    (rows : Rows) : Op → Option Rows × Option String
| .register sid gcAge now =>
    let registered :=
      registerWithAge sid gcAge now.toNat rows
    (some registered.1, some registered.2)
| .rename old new now =>
    if old = new ∨ held rows old = none then
      (none, held rows new)
    else
      (some (Instances.rename old new now.toNat rows),
        some (takeSlot rows old new now.toNat).2)
| .touch sid now =>
    (if (rows.get? sid).isSome then
        some (refresh rows sid now.toNat)
      else none, none)
| .evict sid =>
    (if (rows.get? sid).isSome then some (detach rows sid)
      else none, none)

/-
  Whether the file is passed over before it is read under
  its lock: a touch of no file, and an eviction from one
  that does not hold the id's text.
-/
def Op.passes
    (file : Option String) : Op → Bool
| .touch _ _ => file.isNone
| .evict sid =>
    !(file.any (fun content => RustText.contains content sid))
| _ => false

/- The rows of a file; one that is absent has none. -/
def rowsOf
    (file : Option String) : Rows :=
  parseRegistry (file.getD "")

/- The file after an operation, and what it returned. -/
def runOp
    (file : Option String)
    (op : Op) : Option String × Option String :=
  if op.passes file then (file, none)
  else
    match op.edit (rowsOf file) with
    | (some rows, out) => (some (serializeRegistry rows), out)
    | (none, out) => (file, out)

/- The instance a file shows for a session. -/
def lookup
    (file : Option String)
    (sid : String) : Option String :=
  file.bind
    (fun content =>
      ((parseRegistry content).get? sid).map
        InstanceEntry.instanceName)

end Instances

------------------------------------------------------------
-- The Directory
------------------------------------------------------------

namespace Instances

/- The registry files, by the name each root's key gives. -/
abbrev Files := KeyMap String String

/- A call, on the registry of one project root. -/
inductive Call where
| register (cwd sid : String) (gcAge : Nat) (now : UInt64)
| rename (cwd old new : String) (now : UInt64)
| touch (cwd sid : String) (now : UInt64)
deriving DecidableEq

/- The operation a call does to one file, if any. -/
def Call.opOn
    (pathFor : String → String)
    (path : String) : Call → Option Op
| .register cwd sid gcAge now =>
    some (if path = pathFor cwd then
        Op.register sid gcAge now
      else Op.evict sid)
| .rename cwd old new now =>
    if path = pathFor cwd then some (Op.rename old new now)
    else none
| .touch cwd sid now =>
    if path = pathFor cwd then some (Op.touch sid now)
    else none

/- The project root a call names. -/
def Call.cwd : Call → String
| .register cwd _ _ _ => cwd
| .rename cwd _ _ _ => cwd
| .touch cwd _ _ => cwd

/- One file after the operation a call does to it. -/
def visitFile
    (pathFor : String → String)
    (call : Call)
    (files : Files)
    (path : String) : Files :=
  match call.opOn pathFor path with
  | none => files
  | some op =>
      files.assign path (runOp (files.get? path) op).1

/-
  The files after a call, its own first and then, for a
  registration, every other; and what the call returned.
-/
def runCall
    (pathFor : String → String)
    (files : Files)
    (call : Call) : Files × Option String :=
  let own := pathFor call.cwd
  let out :=
    (call.opOn pathFor own).bind
      (fun op => (runOp (files.get? own) op).2)
  let written := visitFile pathFor call files own
  ((written.keys.filter (fun path => path ≠ own)).foldl
    (visitFile pathFor call) written, out)

end Instances
