import Stencil.Engine.Render
import Stencil.Project.Load
/-!
# Building projects

Building renders every entry to a file of its own. An entry that fails is counted and leaves no
file; the others are built all the same.
-/

namespace Stencil

/-- How many entries were built. -/
structure BuildStats where
  total : Nat
  rendered : Nat
  deriving DecidableEq

/-- How many entries failed. -/
def BuildStats.failed (s : BuildStats) : Nat :=
  s.total - s.rendered

/-- The folder for the output could not be made. -/
structure BuildError where
  path : String
  deriving DecidableEq

/-- The text of the error. -/
def BuildError.message (e : BuildError) : String :=
  "创建输出目录 " ++ e.path ++ " 失败"

variable {m : Type → Type} [Monad m]

namespace Project

/-- The templates that are built. -/
def entries (p : Project) (e : Engine) : List String :=
  if p.config.entries.isEmpty then e.templateNames else p.config.entries

/-- Writes a text to a file, together with the folder it belongs to. -/
def writePage (d : Disk m) (path text : String) : m Bool := do
  if ← d.makeFolders (Path.parent path) then d.write path text else return false

/-- Builds one entry; whether this was possible. -/
def buildEntry (d : Disk m) (e : Engine) (frame : Frame) (folder name : String) : m Bool := do
  match e.renderHtml name frame with
  | .ok html => writePage d (Path.join folder (name ++ ".html")) html
  | .error _ => return false

/-- Builds all entries. -/
def build (p : Project) (d : Disk m) (e : Engine) (frame : Frame) :
    ExceptT BuildError m BuildStats := do
  let folder := p.config.outputPath p.root
  if ← d.makeFolders folder then
    let names := p.entries e
    let built ← ExceptT.lift (names.mapM fun name => buildEntry d e frame folder name)
    return ⟨names.length, built.count true⟩
  else throw ⟨folder⟩

end Project

end Stencil
