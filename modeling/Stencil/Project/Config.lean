import Stencil.Engine.Basic
import Stencil.Files.Path
import Stencil.Toml.Reader
/-!
# Configurations

What a project can say in its configuration file. Everything has a default; names that mean
nothing are passed over, and a value of the wrong kind makes the whole file invalid.
-/

namespace Stencil

/-- The configuration of a project. -/
structure Config where
  templateFolder : String
  /-- The extension of the files that are templates. -/
  extension : String
  settings : Settings
  outputFolder : String
  /-- The file with the variables. -/
  variableFile : String
  /-- The templates that are built; none for all of them. -/
  entries : List String
  logLevel : String
  logFormat : String
  deriving DecidableEq

namespace Config

/-- The name of the configuration file. -/
def fileName : String := "plates.toml"

/-- The configuration of a project without a configuration file. -/
def standard : Config where
  templateFolder := "templates"
  extension := "plates"
  settings := .standard
  outputFolder := "public"
  variableFile := "data.json"
  entries := []
  logLevel := "info"
  logFormat := "text"

/-! ## Reading -/

/-- The fields of a section. An array gives its fields by position, a date has none. -/
def field? (name : String) (position : Nat) : Toml → Option (Option Toml)
  | .table entries => some (Table.get? entries name)
  | .array items => some items[position]?
  | .datetime _ => some none
  | _ => none

/-- A text. -/
def text? : Toml → Option String
  | .string s => some s
  | _ => none

/-- A natural number. -/
def natural? : Toml → Option Nat
  | .integer n => if 0 ≤ n.toInt then some n.toInt.toNat else none
  | _ => none

/-- A list of texts. -/
def texts? : Toml → Option (List String)
  | .array items => items.mapM text?
  | _ => none

/-- The value of a field, or its default if it is missing; none if it is of the wrong kind. -/
def fieldOr {α : Type} (name : String) (position : Nat) (read? : Toml → Option α) (default : α)
    (section? : Option Toml) : Option α :=
  match section? with
  | none => some default
  | some s => do
    match ← field? name position s with
    | some v => read? v
    | none => return default

/-- The configuration that the sections of a file give. -/
def ofSections? (templates render build log : Option Toml) : Option Config := do
  let d := standard
  return {
    templateFolder := ← fieldOr "dir" 0 text? d.templateFolder templates
    extension := ← fieldOr "extension" 1 text? d.extension templates
    settings := {
      containerTag := ← fieldOr "container_tag" 0 text? d.settings.containerTag render
      containerClass := ← fieldOr "container_class" 1 text? d.settings.containerClass render
      maxDepth := ← fieldOr "max_depth" 2 natural? d.settings.maxDepth render }
    outputFolder := ← fieldOr "output_dir" 0 text? d.outputFolder build
    variableFile := ← fieldOr "variables" 1 text? d.variableFile build
    entries := ← fieldOr "entries" 2 texts? d.entries build
    logLevel := ← fieldOr "level" 0 text? d.logLevel log
    logFormat := ← fieldOr "format" 1 text? d.logFormat log }

/-- The configuration in the text of a file. -/
def parse? (text : String) : Option Config := do
  match ← Toml.parse? text with
  | .table entries =>
    ofSections? (Table.get? entries "templates") (Table.get? entries "render")
      (Table.get? entries "build") (Table.get? entries "log")
  | _ => none

/-- The folder with the templates of the project in `root`. -/
def templatePath (c : Config) (root : String) : String :=
  Path.join root c.templateFolder

/-- The folder that building writes to. -/
def outputPath (c : Config) (root : String) : String :=
  Path.join root c.outputFolder

/-- The file with the variables. -/
def variablePath (c : Config) (root : String) : String :=
  Path.join root c.variableFile

end Config

end Stencil
