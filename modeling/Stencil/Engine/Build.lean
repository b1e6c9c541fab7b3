import Stencil.Engine.Basic
import Stencil.Extension
/-!
# Building engines

A blueprint collects sources and everything else an engine needs. Building reads each source on
its own: a template that cannot be read takes nothing from the others.
-/

namespace Stencil

/-- What an engine is built from. -/
structure Blueprint where
  grammar : Grammar
  extensions : Extensions
  filters : Table Filter
  globals : Frame
  host : Host
  /-- The sources of the templates by their names. -/
  sources : Table String
  settings : Settings

namespace Blueprint

/-- The standard language, without filters, variables and templates. -/
def empty : Blueprint where
  grammar := .standard
  extensions := .standard
  filters := []
  globals := []
  host := .empty
  sources := []
  settings := .standard

/-- Adds templates. A name that is there gets the new source and keeps its place. -/
def withSources (b : Blueprint) (sources : List (String × String)) : Blueprint :=
  { b with sources := Table.merge b.sources sources }

/-- Adds the standard filters, except where there is a filter of that name. -/
def withStandardFilters (b : Blueprint) : Blueprint :=
  { b with filters := Table.merge Filter.standard b.filters }

/-- What the sources are read with. -/
def dialect (b : Blueprint) : Dialect :=
  ⟨b.grammar, b.extensions.modifier?, b.settings.maxDepth⟩

/-- The template from a source, or the error in it. -/
def compile (b : Blueprint) (source : String × String) : String × Except CompileError Node :=
  (source.1, b.dialect.compile source.1 source.2)

/-- All templates and errors, in the order of the sources. -/
def compiled (b : Blueprint) : List (String × Except CompileError Node) :=
  b.sources.map b.compile

/-- The template of an entry that could be read. -/
def readable : String × Except CompileError Node → Option (String × Node)
  | (name, .ok node) => some (name, node)
  | (_, .error _) => none

/-- The error of an entry that could not be read. -/
def unreadable : String × Except CompileError Node → Option (String × CompileError)
  | (_, .ok _) => none
  | (name, .error e) => some (name, e)

/-- The engine. -/
def build (b : Blueprint) : Engine where
  grammar := b.grammar
  filters := b.filters
  globals := b.globals
  host := b.host
  templates := b.compiled.filterMap readable
  faults := b.compiled.filterMap unreadable
  settings := b.settings

end Blueprint

end Stencil
