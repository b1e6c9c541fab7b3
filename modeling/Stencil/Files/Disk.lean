import Stencil.Files.Path
/-!
# Disks

What the library needs of a place where files are kept, as a record of operations. The operations
run in a monad of their own, so that a disk can be a real one or a value in memory. An operation
that fails says so in its answer and not why.
-/

namespace Stencil

/-- What can stand at a path. -/
inductive FileKind
  | file
  | folder
  deriving DecidableEq

/-- The operations of a disk. Paths that do not start at the root of all folders are followed from
the working folder. -/
structure Disk (m : Type → Type) where
  /-- What stands at a path, if anything does. -/
  kind? : String → m (Option FileKind)
  /-- The names in a folder, in any order. -/
  names? : String → m (Option (List String))
  /-- The text of a file. -/
  read? : String → m (Option String)
  /-- Writes a text to a file in a folder that exists; whether this was possible. -/
  write : (path text : String) → m Bool
  /-- Makes a folder in one that exists; whether this was possible. -/
  makeFolder : String → m Bool
  /-- The path from the root of all folders to what stands at a path. -/
  fullPath? : String → m (Option String)

namespace Disk

variable {m : Type → Type} [Monad m]

/-- Whether anything stands at a path. -/
def has (d : Disk m) (path : String) : m Bool := do
  return (← d.kind? path).isSome

/-- Makes a folder if it is missing; whether it is there now. -/
def ensureFolder (d : Disk m) (path : String) : m Bool := do
  match ← d.kind? path with
  | some .folder => return true
  | _ => d.makeFolder path

/-- Makes folders where they are missing, one after the other, up to the first that cannot be
made; whether all are there now. -/
def ensureFolders (d : Disk m) : List String → m Bool
  | [] => return true
  | path :: paths => do
    if ← d.ensureFolder path then d.ensureFolders paths else return false

/-- Makes a folder and those on the way to it; whether it is there now. A path that ends in a
point means a folder that is there already, so that it makes only those on the way. -/
def makeFolders (d : Disk m) (path : String) : m Bool :=
  d.ensureFolders (Path.along path)

end Disk

end Stencil
