import Stencil.Filter
import Stencil.Render.Host
import Stencil.Scope
import Stencil.Template.Compile
/-!
# Engines

An engine holds what the rendering of templates needs: the templates that could be read, the
errors of the others, filters, global variables and the functions of the host.
-/

namespace Stencil

/-- How an engine renders. -/
structure Settings where
  /-- The element that is created around a template where there is no other. -/
  containerTag : String
  containerClass : String
  /-- The deepest nesting, both when templates are read and when they are rendered. -/
  maxDepth : Nat
  deriving DecidableEq

/-- The settings of an engine that is not told otherwise. -/
def Settings.standard : Settings := ⟨"div", "__template__", 256⟩

/-- What templates are rendered with. -/
structure Engine where
  grammar : Grammar
  filters : Table Filter
  globals : Frame
  host : Host
  /-- The templates that could be read. -/
  templates : Table Node
  /-- The errors of the other templates. -/
  faults : List (String × CompileError)
  settings : Settings

namespace Engine

/-- The template with a name. -/
def template? (e : Engine) (name : String) : Option Node :=
  Table.get? e.templates name

/-- Whether there is a template with a name. -/
def hasTemplate (e : Engine) (name : String) : Bool :=
  Table.has e.templates name

/-- The names of the templates in order. -/
def templateNames (e : Engine) : List String :=
  Table.keys (Table.sorted e.templates)

/-- The filter with a name. -/
def filter? (e : Engine) (name : String) : Option Filter :=
  Table.get? e.filters name

/-- The global variable with a name. -/
def global? (e : Engine) (name : String) : Option Value :=
  Table.get? e.globals name

end Engine

end Stencil
