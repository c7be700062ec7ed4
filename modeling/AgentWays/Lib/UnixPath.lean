import AgentWays.Lib.RustText

/-
  Paths as the Rust standard library reads them on Unix.

  A path is its text. Its components skip repeated slashes
  and every `.` but a leading one.

  Key definitions include:
    * `UnixPath.Component`
    * `UnixPath.components`
    * `UnixPath.join`
    * `UnixPath.render`
    * `UnixPath.stripPrefix`
-/

namespace UnixPath

inductive Component where
| rootDir
| curDir
| parentDir
| normal (name : String)
deriving DecidableEq

/- The text between two slashes as a component, if it is one. -/
def ofText
    (text : String) : Option Component :=
  if text = "" then none
  else if text = "." then none
  else if text = ".." then some .parentDir
  else some (.normal text)

/- `Path::components`. -/
def components
    (path : String) : List Component :=
  let texts :=
    (path.toList.splitOn '/').map String.ofList
  let body := texts.filterMap ofText
  if RustText.startsWith path "/" then .rootDir :: body
  else if texts.head? = some "." then .curDir :: body
  else body

/- `Path::is_absolute`. -/
def isAbsolute
    (path : String) : Bool :=
  RustText.startsWith path "/"

/- `Path::join`. -/
def join
    (base part : String) : String :=
  if isAbsolute part then part
  else if base = "" ∨ base.toList.getLast? = some '/' then
    base ++ part
  else base ++ "/" ++ part

def Component.text : Component → String
| .rootDir => "/"
| .curDir => "."
| .parentDir => ".."
| .normal name => name

/- The path pushed together from its components. -/
def render
    (parts : List Component) : String :=
  parts.foldl (fun base c => join base c.text) ""

/- `Path::file_name`. -/
def fileName
    (path : String) : Option String :=
  match (components path).getLast? with
  | some (.normal name) => some name
  | _ => none

/- `Path::strip_prefix`, component by component. -/
def stripPrefix
    (path base : List Component) :
    Option (List Component) :=
  if base.isPrefixOf path then
    some (path.drop base.length)
  else none

end UnixPath
