import Stencil.Project.Load
/-!
# Checking projects

A check tells what would go wrong when a project is built: templates that cannot be read, entries
that are no templates, and variables that cannot be loaded are errors; references to templates
that are not there are warnings, since they may never be followed.
-/

namespace Stencil

/-- What a check has found. -/
structure Findings where
  errors : List String
  warnings : List String
  deriving DecidableEq

namespace Findings

/-- No findings. -/
def none : Findings := ⟨[], []⟩

/-- Findings that are all errors. -/
def ofErrors (errors : List String) : Findings := ⟨errors, []⟩

/-- Findings that are all warnings. -/
def ofWarnings (warnings : List String) : Findings := ⟨[], warnings⟩

/-- The findings of two checks. -/
def append (a b : Findings) : Findings :=
  ⟨a.errors ++ b.errors, a.warnings ++ b.warnings⟩

instance : Append Findings := ⟨append⟩

end Findings

namespace Node

/-- The names of the templates that a template renders by name, as often as it does. -/
def references (root : Node) : List String :=
  root.walk.filterMap fun
    | render name => some name
    | _ => none

end Node

namespace Engine

/-- Whether a template has a source, whether or not it could be read. -/
def knows (e : Engine) (name : String) : Bool :=
  e.hasTemplate name || e.faults.any fun f => f.1 == name

/-- The names that a template refers to and that no template has. -/
def missing (e : Engine) (name : String) : List String :=
  match e.template? name with
  | some root => root.references.filter fun target => !e.knows target
  | none => []

/-- All references to templates that are not there: the template that refers and the name. -/
def danglingReferences (e : Engine) : List (String × String) :=
  e.templateNames.flatMap fun name => (e.missing name).map fun target => (name, target)

/-- What is wrong with the templates themselves. -/
def templateFindings (e : Engine) : Findings where
  errors := e.faults.map fun f => f.2.message
  warnings :=
    if e.templates.isEmpty && e.faults.isEmpty then ["没有找到任何模板"] else []

/-- What is wrong with the references between templates. -/
def referenceFindings (e : Engine) : Findings :=
  .ofWarnings (e.danglingReferences.map fun r =>
    "模板 " ++ r.1 ++ " 引用了不存在的模板 " ++ r.2)

/-- What is wrong with the list of entries. -/
def entryFindings (e : Engine) (entries : List String) : Findings :=
  .ofErrors ((entries.filter fun name => !e.hasTemplate name).map fun name =>
    "入口模板 " ++ name ++ " 不存在或编译失败")

end Engine

variable {m : Type → Type} [Monad m]

namespace Project

/-- What is wrong with the variables. -/
def variableFindings (p : Project) (d : Disk m) : m Findings := do
  if ← d.has p.variablePath then
    match ← (p.frame d none).run with
    | .ok _ => return .none
    | .error e => return .ofErrors [e.message]
  else
    return .ofWarnings ["变量文件 " ++ p.variablePath ++ " 不存在，将以空变量渲染"]

/-- What is wrong with a project that could be opened. -/
def findings (p : Project) (d : Disk m) : ExceptT LoadError m Findings := do
  if ← d.has p.templatePath then
    let e ← p.engine d
    let found := e.templateFindings ++ e.referenceFindings ++ e.entryFindings p.config.entries
    return found ++ (← ExceptT.lift (p.variableFindings d))
  else
    return .ofErrors ["模板目录 " ++ p.templatePath ++ " 不存在"]

end Project

/-- Checks the project in a folder. -/
def Disk.check (d : Disk m) (root : String) : ExceptT LoadError m Findings := do
  match ← ExceptT.lift (d.project root).run with
  | .ok p => p.findings d
  | .error e => return .ofErrors ["配置加载失败：" ++ e.message]

end Stencil
