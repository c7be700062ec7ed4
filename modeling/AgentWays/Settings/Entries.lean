import AgentWays.Lib.Json
import AgentWays.Lib.RustText

/-
  The hook entries agent-ways ships: how they are written,
  and how they are known again.

  A shipped entry is written with its commands' first token
  quoted, so a settled file holds a second spelling of each.
  Beside the two spellings, an entry is known by its shape:
  every command of it runs something under the projection.

  Key definitions include:
    * `Settings.quoteFirstToken`
    * `Settings.quoteEntryCommands`
    * `Settings.exeToken`
    * `Settings.commandIsOurs`
    * `Settings.entryIsOurs`
-/

------------------------------------------------------------
-- Quoting
------------------------------------------------------------

namespace Settings

open Json

/- The characters before the first `c`, and from it on. -/
def splitAtChar
    (c : Char)
    (s : String) : String × Option String :=
  let head := s.toList.takeWhile (· ≠ c)
  let rest := s.toList.dropWhile (· ≠ c)
  (String.ofList head,
    if rest.isEmpty then none
    else some (String.ofList rest))

def quoteFirstToken
    (cmd : String) : String :=
  if RustText.startsWith cmd "\"" then cmd
  else
    match splitAtChar ' ' cmd with
    | (_, none) => "\"" ++ cmd ++ "\""
    | (head, some rest) => "\"" ++ head ++ "\"" ++ rest

/- The text a hook runs, if it has one. -/
def commandOf
    (hook : Value) : Option String :=
  (hook.get? "command").bind Value.asStr

/- One hook of an entry, its command's first token quoted. -/
def quoteCommand
    (hook : Value) : Value :=
  match commandOf hook, hook.asObject with
  | some cmd, some m =>
      .obj
        (m.insert "command" (.str (quoteFirstToken cmd)))
  | _, _ => hook

/- The hooks of an entry, if they are a list. -/
def hooksOf
    (entry : Value) : Option (List Value) :=
  (entry.get? "hooks").bind Value.asArray

/- The entry in the form that is written. -/
def quoteEntryCommands
    (entry : Value) : Value :=
  match hooksOf entry, entry.asObject with
  | some hooks, some m =>
      .obj
        (m.insert "hooks" (.array (hooks.map quoteCommand)))
  | _, _ => entry

end Settings

------------------------------------------------------------
-- Ownership By Shape
------------------------------------------------------------

namespace Settings

open Json

/-
  The executable token: the quoted span a command starts
  with, or its first word.
-/
def exeToken
    (cmd : String) : String :=
  match RustText.stripPrefix cmd "\"" with
  | some rest => (splitAtChar '"' rest).1
  | none => (RustText.splitWhitespace cmd).head?.getD cmd

def commandIsOurs
    (cmd : String) : Bool :=
  let exe := RustText.replaceChars (exeToken cmd) ['\\'] '/'
  RustText.contains exe ".claude/hooks/" ||
    RustText.contains exe ".claude/bin/"

/- An entry with commands, each of them ours. -/
def entryIsOurs
    (entry : Value) : Bool :=
  match hooksOf entry with
  | some hooks =>
      !hooks.isEmpty &&
        hooks.all
          (fun h => ((commandOf h).map commandIsOurs).getD false)
  | none => false

end Settings
