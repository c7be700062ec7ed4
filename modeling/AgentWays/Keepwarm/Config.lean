import AgentWays.Lib.UnixPath
import AgentWays.Keepwarm.Basic
import AgentWays.Keepwarm.Windows

/-
  The keepalive policy's settings, its session's site, and
  the route a wrap's reply takes.

  `Site.isLink` is the host's file system as the path check
  asks it: which paths are symbolic links.

  Key definitions include:
    * `Keepwarm.Config`
    * `Keepwarm.Config.noWrap`
    * `Keepwarm.Config.whyOff`
    * `Keepwarm.Site.confinedWrapFile`
    * `Keepwarm.checkWrapPath`
    * `Keepwarm.route`
-/

------------------------------------------------------------
-- Settings
------------------------------------------------------------

namespace Keepwarm

open RustText

/- How much of a refused value the reasons echo. -/
def echoMaxLen : Nat := 64

/- A configured value, with control characters replaced. -/
def echo
    (value : String) : String :=
  let clean :=
    value.toList.map
      (fun c => if isControl c then '?' else c)
  if echoMaxLen < clean.length then
    String.ofList (clean.take echoMaxLen) ++ "…"
  else String.ofList clean

/- Where the wrap's final reply goes. -/
inductive WrapDest where
| transcript
| file
| send
| off
deriving DecidableEq

def WrapDest.asStr : WrapDest → String
| .transcript => "transcript"
| .file => "file"
| .send => "send"
| .off => "off"

/- What follows the wrap. -/
inductive AfterWrap where
| lapse
| compact
deriving DecidableEq

def AfterWrap.asStr : AfterWrap → String
| .lapse => "lapse"
| .compact => "compact"

/- The skill the wrap turn asks for; no name is no skill. -/
structure WrapSkill where
  name : String
  args : String
  refused : Option (String × String)
deriving DecidableEq

def WrapSkill.ask
    (w : WrapSkill) : String :=
  let words :=
    (w.args.toList.splitOn ' ').filter
      (fun a => !a.isEmpty)
  match words.length with
  | 0 => "Run the " ++ w.name ++ " skill"
  | 1 =>
      "Run the " ++ w.name ++ " skill with the argument " ++
        w.args
  | _ =>
      "Run the " ++ w.name ++
        " skill with the arguments " ++ w.args

/- The autocompact gate; unknown counts as on. -/
inductive Gate where
| on
| off
| unknown
deriving DecidableEq

def Gate.asStr : Gate → String
| .on => "on"
| .off => "off"
| .unknown => "unknown"

/- What the host said of the session's skills. -/
inductive SessionSkills where
| notChecked
| unread
| listed (names : List String)
| partly (names : List String)
deriving DecidableEq

/- The `mods.attend` keys the policy reads. -/
structure Config where
  settingsOk : Bool
  keepwarmOn : Bool
  enabled : Bool
  max : Nat
  marginSecs : Nat
  windows : Windows
  wrap : WrapDest
  wrapFile : String
  wrapTo : String
  afterWrap : AfterWrap
  afterMax : Nat
  wrapSkill : WrapSkill
  sessionSkills : SessionSkills

namespace Config

/- Why no wrap follows the keepalives, if none does. -/
def noWrap
    (cfg : Config) : Option String :=
  if cfg.wrap = .off then some "wrap is off"
  else
    match cfg.wrapSkill.refused with
    | some (value, _) =>
        some ("wrap_skill \"" ++ value ++ "\" is refused")
    | none =>
        let name := cfg.wrapSkill.name
        if name = "" then some "no wrap_skill is set"
        else
          match cfg.sessionSkills with
          | .unread =>
              some "the session's skills could not be read"
          | .listed list =>
              if list.contains name then none
              else
                some
                  ("the " ++ name ++
                    " skill is not among the session's skills")
          | .partly _ => none
          | .notChecked => none

/- What a check with this config finds of the skill. -/
def skillSeen
    (cfg : Config) : Option SkillSeen :=
  match cfg.sessionSkills with
  | .notChecked => none
  | .unread => some .unread
  | .listed list =>
      if list.contains cfg.wrapSkill.name then some .listed
      else some .missing
  | .partly list =>
      if list.contains cfg.wrapSkill.name then some .listed
      else none

/- Why the policy does not run with `gate`. -/
def whyOff
    (cfg : Config)
    (gate : Gate) : Option String :=
  if !cfg.settingsOk then
    some "the mods.attend settings could not be read"
  else if !cfg.keepwarmOn then
    some "mods.attend.keepwarm is off"
  else if !cfg.enabled then
    some "mods.attend.keepalive.enabled is false"
  else
    match gate with
    | .off => none
    | .on => some "autocompact is on"
    | .unknown =>
        some
          "autocompact could not be read, so it counts as on"

end Config

/- The default settings, with all day for windows. -/
def defaultConfig : Config :=
  { settingsOk := true
    keepwarmOn := true
    enabled := true
    max := 8
    marginSecs := 10 * 60
    windows := allDay
    wrap := .transcript
    wrapFile := "{state}/wrap/{session}.md"
    wrapTo := ""
    afterWrap := .lapse
    afterMax := 0
    wrapSkill := ⟨"wrap", "stay", none⟩
    sessionSkills := .notChecked }

end Keepwarm

------------------------------------------------------------
-- The Wrap File
------------------------------------------------------------

namespace Keepwarm

open RustText UnixPath

/- Who and where this session is. -/
structure Site where
  sessionId : String
  project : String
  name : String
  operator : String
  stateRoot : String
  home : String
  isLink : String → Bool

/- A path's `.` and `..` resolved; `none` above the root. -/
def normalize
    (path : String) : Option (List Component) :=
  (components path).foldlM
    (fun out c =>
      match c with
      | .parentDir =>
          match out.getLast? with
          | none => none
          | some .rootDir => none
          | some _ => some out.dropLast
      | .curDir => some out
      | .rootDir => some [.rootDir]
      | .normal name => some (out ++ [.normal name]))
    []

/- The first link among `base` and the parts under it. -/
def firstLink
    (isLink : String → Bool)
    (base : List Component) :
    List Component → Option String
| [] => none
| part :: rest =>
    let at' := base ++ [part]
    if isLink (render at') then some (render at')
    else firstLink isLink at' rest

/-
  Whether a path is a safe place for the session's wrap:
  under `{state}/wrap/`, its file name naming the session,
  and nothing from the wrap directory down a link.
-/
def checkWrapPath
    (site : Site)
    (path : String) : Except String Unit :=
  match normalize (join site.stateRoot "wrap") with
  | none => .error "the state root climbs above the root"
  | some base =>
      let parts := components path
      if parts.any (fun c => c = .curDir ∨ c = .parentDir)
      then .error "it has a . or .. component"
      else
        match UnixPath.stripPrefix parts base with
        | none => .error "it is outside {state}/wrap/"
        | some rest =>
            if rest.isEmpty then
              .error "it names the wrap directory itself"
            else if site.sessionId = "" ∨
                ¬ contains ((fileName path).getD "")
                    site.sessionId then
              .error
                "its file name does not name the session"
            else if site.isLink (render base) then
              .error (render base ++ " is a symlink")
            else
              match firstLink site.isLink base rest with
              | some link =>
                  .error (link ++ " is a symlink")
              | none => .ok ()

namespace Site

def projectName
    (site : Site) : String :=
  (fileName site.project).getD site.project

def defaultWrapFile
    (site : Site) : String :=
  join (join site.stateRoot "wrap")
    (site.sessionId ++ ".md")

/- The template with its fields expanded. -/
def wrapFile
    (site : Site)
    (template : String)
    (windows : Windows)
    (now : Nat) : String :=
  let text := replace template "{state}" site.stateRoot
  let text := replace text "{project}" site.projectName
  let text := replace text "{session}" site.sessionId
  let text := replace text "{date}" (windows.date now)
  let path :=
    match RustText.stripPrefix text "~/" with
    | some rest => join site.home rest
    | none => text
  if isAbsolute path then path
  else join site.project path

/- A refused wrap file falls back to the default one. -/
def fallbackWrapFile
    (site : Site)
    (template why : String) : String × Option String :=
  let default := site.defaultWrapFile
  match checkWrapPath site default with
  | .ok () =>
      (default,
        some
          ("wrap_file \"" ++ echo template ++
            "\" refused: " ++ why ++
            "; the reply goes to " ++ default))
  | .error also =>
      ("",
        some
          ("wrap_file \"" ++ echo template ++
            "\" refused: " ++ why ++ "; the default " ++
            default ++ " is refused too: " ++ also))

/- The wrap file, confined, with a note where it is refused. -/
def confinedWrapFile
    (site : Site)
    (template : String)
    (windows : Windows)
    (now : Nat) : String × Option String :=
  if ¬ contains template "{session}" then
    site.fallbackWrapFile template
      "it names no {session}, so sessions would overwrite one another's wrap"
  else
    let path := site.wrapFile template windows now
    match checkWrapPath site path with
    | .ok () =>
        (((normalize path).map render).getD path, none)
    | .error why => site.fallbackWrapFile template why

end Site

/- A session's site on a host without links. -/
def plainSite : Site :=
  { sessionId := "s1"
    project := "/p"
    name := "p"
    operator := "o"
    stateRoot := "/s"
    home := "/h"
    isLink := fun _ => false }

end Keepwarm

------------------------------------------------------------
-- The Route
------------------------------------------------------------

namespace Keepwarm

open RustText

/- Whether a recipient is the channel every session reads. -/
def isOpenChannel
    (recipient : String) : Bool :=
  match RustText.stripPrefix recipient "#" with
  | some c => eqIgnoreAsciiCase (trim c) "open"
  | none => false

/- What the configuration asks for that the route refuses. -/
def routeNotes
    (cfg : Config)
    (site : Site)
    (now : Nat) : List String :=
  let file :=
    (site.confinedWrapFile cfg.wrapFile cfg.windows now).2
  let refusal :=
    if cfg.wrap = .send ∧ isOpenChannel cfg.wrapTo then
      [ "wrap_to \"" ++ cfg.wrapTo ++
        "\" refused: #open reaches every listening session; " ++
        "the reply goes to " ++ site.operator ]
    else []
  let skill :=
    match cfg.wrapSkill.refused with
    | some (value, why) =>
        [ "wrap_skill \"" ++ value ++ "\" refused: " ++ why ++
          "; no wrap or compaction runs" ]
    | none => []
  file.toList ++ refusal ++ skill

structure WrapRoute where
  dest : String
  file : String
  recipient : String
  after : String
  afterKeepalives : Nat
  handoff : String
  notes : List String
deriving DecidableEq

def route
    (cfg : Config)
    (site : Site)
    (now : Nat) : WrapRoute :=
  { dest := cfg.wrap.asStr
    file :=
      (site.confinedWrapFile cfg.wrapFile cfg.windows
        now).1
    notes := routeNotes cfg site now
    recipient :=
      if cfg.wrapTo = "" ∨ isOpenChannel cfg.wrapTo then
        site.operator
      else cfg.wrapTo
    after := cfg.afterWrap.asStr
    afterKeepalives := cfg.afterMax
    handoff :=
      "handoff: continuation prompt from " ++ site.name ++
        " (" ++ site.projectName ++ "), wrapped at " ++
        cfg.windows.hm now ++
        " while its operator was away." }

end Keepwarm
