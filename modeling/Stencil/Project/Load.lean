import Stencil.Engine.Build
import Stencil.Files.Disk
import Stencil.Json.Reader
import Stencil.Project.Config
/-!
# Projects on a disk

A project is a folder with a configuration, a folder of templates and a file of variables. Every
file below the template folder with the right extension is a template; its name is the path to it
without the extension.
-/

namespace Stencil

/-- Why something could not be loaded. -/
inductive LoadError
  /-- A file or a folder could not be read. -/
  | unreadable (path : String)
  /-- The configuration is not valid. -/
  | config (path : String)
  /-- The file of variables does not hold an object. -/
  | variableFile (path : String)
  deriving DecidableEq

/-- The text of the error. -/
def LoadError.message : LoadError → String
  | unreadable path => "读取 " ++ path ++ " 失败："
  | config path => "解析 " ++ path ++ " 失败："
  | variableFile path => "渲染变量文件 " ++ path ++ " 不是合法的 JSON 对象："

/-- A folder with its configuration. -/
structure Project where
  root : String
  config : Config

variable {m : Type → Type} [Monad m]

namespace Disk

/-- The text of a file that should be there. -/
def text (d : Disk m) (path : String) : ExceptT LoadError m String := do
  match ← d.read? path with
  | some text => return text
  | none => throw (.unreadable path)

/-- The names in a folder that should be there. -/
def names (d : Disk m) (path : String) : ExceptT LoadError m (List String) := do
  match ← d.names? path with
  | some names => return names
  | none => throw (.unreadable path)

/-- No folder lies deeper than this below another one. -/
def maxFolderDepth : Nat := 4096

/-- The templates in the folder at `path`, which is reached from the template folder by `above`,
with their names. -/
def templatesIn (d : Disk m) (extension : String) :
    Nat → (path : String) → (above : String) → ExceptT LoadError m (List (String × String))
  | 0, path, _ => throw (.unreadable path)
  | depth + 1, path, above => do
    let names ← d.names path
    let found ← names.mapM fun name => do
      let file := Path.join path name
      match ← d.kind? file with
      | some .folder => d.templatesIn extension depth file (above ++ name ++ "/")
      | _ =>
        if Path.extension? name = some extension then
          return [(above ++ Path.stem name, ← d.text file)]
        else return []
    return found.flatten

/-- The templates in a folder in the order of their names. A folder that is not there has none. -/
def templates (d : Disk m) (path extension : String) :
    ExceptT LoadError m (List (String × String)) := do
  if ← d.has path then
    return Table.sorted (← d.templatesIn extension maxFolderDepth path "")
  else return []

/-- The variables in a file. -/
def frame (d : Disk m) (path : String) : ExceptT LoadError m Frame := do
  let text ← d.text path
  match Json.parse? text with
  | some (.object members) => return Value.ofJsonMembers members
  | _ => throw (.variableFile path)

/-- The configuration of the project in a folder. -/
def config (d : Disk m) (root : String) : ExceptT LoadError m Config := do
  let path := Path.join root Config.fileName
  if ← d.has path then
    match Config.parse? (← d.text path) with
    | some c => return c
    | none => throw (.config path)
  else return .standard

/-- The project in a folder. -/
def project (d : Disk m) (root : String) : ExceptT LoadError m Project := do
  return ⟨root, ← d.config root⟩

end Disk

namespace Project

/-- The folder with the templates. -/
def templatePath (p : Project) : String :=
  p.config.templatePath p.root

/-- The file with the variables. -/
def variablePath (p : Project) : String :=
  p.config.variablePath p.root

/-- What the engine for some templates is built from. -/
def blueprint (p : Project) (templates : List (String × String)) : Blueprint :=
  { Blueprint.empty with settings := p.config.settings }.withStandardFilters.withSources templates

/-- The engine with the templates of the project. -/
def engine (p : Project) (d : Disk m) : ExceptT LoadError m Engine := do
  return (p.blueprint (← d.templates p.templatePath p.config.extension)).build

/-- The variables in a given file, or else in the file of the project if it is there. -/
def frame (p : Project) (d : Disk m) (path : Option String) : ExceptT LoadError m Frame := do
  match path with
  | some path => d.frame path
  | none =>
    if ← d.has p.variablePath then d.frame p.variablePath else return []

end Project

end Stencil
