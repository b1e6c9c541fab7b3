import Stencil.Files.Disk
import Stencil.Files.Path
import Stencil.Table
/-!
# Disks in memory

A tree of folders and files with the operations of a disk. The working folder is one of the
folders in the top folder, and its name stands for its full path; nothing can be reached above the
top.
-/

namespace Stencil

/-- A file or a folder. -/
inductive FileTree
  | file (text : String)
  | folder (entries : List (String × FileTree))

namespace FileTree

/-- Whether something is a file or a folder. -/
def kind : FileTree → FileKind
  | file _ => .file
  | folder _ => .folder

/-- The names in a folder. -/
def names? : FileTree → Option (List String)
  | file _ => none
  | folder entries => some (Table.keys entries)

/-- The text of a file. -/
def text? : FileTree → Option String
  | file text => some text
  | folder _ => none

/-- What stands at the end of a list of names. -/
def find? : FileTree → List String → Option FileTree
  | t, [] => some t
  | file _, _ :: _ => none
  | folder entries, name :: names => do (← Table.get? entries name).find? names

/-- Changes what stands at the end of a list of names; `f` gets nothing if nothing is there. All
folders on the way must exist. -/
def update? (f : Option FileTree → Option FileTree) : FileTree → List String → Option FileTree
  | t, [] => f (some t)
  | file _, _ :: _ => none
  | folder entries, [name] => do
    return folder (Table.insert entries name (← f (Table.get? entries name)))
  | folder entries, name :: names => do
    let inner ← (← Table.get? entries name).update? f names
    return folder (Table.insert entries name inner)

/-- A text put in a file, which is made if it is not there. -/
def write? (text : String) (t : FileTree) (names : List String) : Option FileTree :=
  t.update? (fun
    | some (folder _) => none
    | _ => some (file text)) names

/-- A folder made at the end of a list of names, where nothing must be before. -/
def makeFolder? (t : FileTree) (names : List String) : Option FileTree :=
  t.update? (fun
    | some _ => none
    | none => some (folder [])) names

/-- The way to the end of a path, as names from the top. A point stays in a folder and two points
go back to the one around it, so that what comes before them has to be a folder. -/
def resolve? (t : FileTree) : (behind : List String) → List String → Option (List String)
  | behind, [] => some behind.reverse
  | behind, part :: parts => do
    let here ← t.find? behind.reverse
    match here, part with
    | file _, _ => none
    | _, "" => t.resolve? behind parts
    | _, "." => t.resolve? behind parts
    | _, ".." =>
      match behind with
      | [] => none
      | _ :: behind => t.resolve? behind parts
    | _, name => t.resolve? (name :: behind) parts

/-- The files below, with their paths, in the order of the entries. -/
def files : List String → FileTree → List (String × String)
  | behind, file text => [("/".intercalate behind.reverse, text)]
  | behind, folder entries => filesIn behind entries
where
  filesIn (behind : List String) : List (String × FileTree) → List (String × String)
    | [] => []
    | (name, t) :: es => files (name :: behind) t ++ filesIn behind es

end FileTree

/-- A disk in memory. -/
structure Memory where
  /-- The folder around the working folder. -/
  top : FileTree
  /-- The name of the working folder, which is also its full path. -/
  home : String

namespace Memory

/-- The disk on which there is only the working folder. -/
def blank (home : String) : Memory :=
  ⟨.folder [(home, .folder [])], home⟩

/-- The parts of a path from the working folder on; none if it leads elsewhere. -/
def parts? (m : Memory) (path : String) : Option (List String) :=
  if path = m.home then some []
  else if path.startsWith (m.home ++ "/") then
    some (Path.parts (String.ofList (path.toList.drop (m.home.length + 1))))
  else if path.isEmpty || path.startsWith "/" then none
  else some (Path.parts path)

/-- The way from the top to a path whose end need not exist. -/
def way? (m : Memory) (path : String) : Option (List String) := do
  m.top.resolve? [m.home] (← m.parts? path)

/-- What stands at a path. -/
def find? (m : Memory) (path : String) : Option FileTree := do
  m.top.find? (← m.way? path)

/-- The full path at the end of a way from the top. -/
def fullPath (m : Memory) (way : List String) : String :=
  "/".intercalate (if way.head? = some m.home then way else m.home :: ".." :: way)

/-- Replaces the tree by what a change of it gives, and tells whether there was such a change. -/
def commit (change : Memory → Option FileTree) : StateM Memory Bool := fun m =>
  match change m with
  | some top => (true, { m with top })
  | none => (false, m)

/-- The operations on a disk in memory. -/
def disk : Disk (StateM Memory) where
  kind? path := return ((← get).find? path).map FileTree.kind
  names? path := return ((← get).find? path).bind FileTree.names?
  read? path := return ((← get).find? path).bind FileTree.text?
  write path text := commit fun m => do m.top.write? text (← m.way? path)
  makeFolder path := commit fun m => do
    m.top.makeFolder? (← m.way? (Path.withoutSlashes path))
  fullPath? path := do
    let m ← get
    match m.way? path, m.find? path with
    | some way, some _ => return some (m.fullPath way)
    | _, _ => return none

end Memory

end Stencil
