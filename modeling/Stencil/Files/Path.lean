/-!
# Paths

A path is a text whose parts stand between slashes. Paths are put together as they are, since
messages show them; only where a path is followed do its parts count.
-/

namespace Stencil

namespace Path

/-- The path `rest` as seen from the folder `base`. A path that starts at the root of all folders
is the same from everywhere. -/
def join (base rest : String) : String :=
  if rest.startsWith "/" then rest
  else if base.isEmpty || base.endsWith "/" then base ++ rest
  else base ++ "/" ++ rest

/-- The parts of a path. -/
def parts (path : String) : List String :=
  (path.toList.splitOn '/').map String.ofList

/-- Whether a part leads from one folder to another. -/
def isStep (part : String) : Bool :=
  !part.isEmpty && part != "."

/-- The folders on the way to the end of a path, outermost first, and last the path itself, as it
is written. -/
def along (path : String) : List String :=
  let ps := parts path
  let steps := (List.range ps.length).filter fun i => ps[i]?.any isStep
  steps.dropLast.map (fun i => "/".intercalate (ps.take (i + 1))) ++ [path]

/-- The path without slashes at its end. -/
def withoutSlashes (path : String) : String :=
  String.ofList (path.toList.reverse.dropWhile (· == '/')).reverse

/-- The path without its last part. -/
def parent (path : String) : String :=
  "/".intercalate (parts path).dropLast

/-- The name of a file in front of its last point and behind it. A point at the start of a name
belongs to the name. -/
def splitName (name : String) : String × Option String :=
  let pieces := name.toList.splitOn '.'
  let stem := ".".intercalate (pieces.dropLast.map String.ofList)
  if stem.isEmpty || name = ".." then (name, none)
  else (stem, pieces.getLast?.map String.ofList)

/-- The name of a file without its extension. Where only a point would be left, which is no name,
it is two points. -/
def stem (name : String) : String :=
  match splitName name with
  | (".", some _) => ".."
  | (stem, _) => stem

/-- What stands behind the last point of a name. -/
def extension? (name : String) : Option String :=
  (splitName name).2

example : join "/srv/site" "templates" = "/srv/site/templates" := by decide +kernel
example : join "/srv/site" "" = "/srv/site/" := by decide +kernel
example : splitName "page.en.html" = ("page.en", some "html") := by decide +kernel
example : splitName ".html" = (".html", none) := by decide +kernel
example : splitName "page." = ("page", some "") := by decide +kernel
example : stem "..html" = ".." ∧ stem "...html" = ".." := by decide +kernel
example : along "/srv/./site/../pub/." =
    ["/srv", "/srv/./site", "/srv/./site/..", "/srv/./site/../pub/."] := by decide +kernel

end Path

end Stencil
