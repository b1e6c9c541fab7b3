import Stencil.Toml.Scalar
/-!
# Reading TOML

A file is a list of lines: pairs of keys and values, and headers of the tables to which the pairs
after them belong. Arrays may go over several lines, tables between braces may not.
-/

namespace Stencil

namespace Toml

/-- The text after a comment; the end of the line stays. -/
def skipComment : List Char → Option (List Char)
  | '#' :: cs =>
    let rest := cs.dropWhile isPlain
    if rest.isEmpty || (newline? rest).isSome then some rest else none
  | cs => some cs

/-- The text after blanks, comments and ends of lines. -/
def skipGap : Nat → List Char → Option (List Char)
  | 0, cs => some cs
  | fuel + 1, cs => do
    let cs ← skipComment (skipSpace cs)
    match newline? cs with
    | some rest => skipGap fuel rest
    | none => return cs

/-- The text after blanks, comments and ends of lines, as many as there are. -/
def afterGap (cs : List Char) : Option (List Char) :=
  skipGap (cs.length + 1) cs

/-- The rest of an array behind its opening bracket, or behind a comma. -/
def items? (item : List Char → Option (Toml × List Char)) :
    Nat → List Char → Option (List Toml × List Char)
  | 0, _ => none
  | fuel + 1, cs => do
    match ← afterGap cs with
    | ']' :: rest => return ([], rest)
    | cs =>
      let (v, rest) ← item cs
      match ← afterGap rest with
      | ']' :: rest => return ([v], rest)
      | ',' :: rest =>
        let (vs, rest) ← items? item fuel rest
        return (v :: vs, rest)
      | _ => none

/-- A key and a value. -/
def pair? (item : List Char → Option (Toml × List Char)) (cs : List Char) :
    Option ((List String × String × Toml) × List Char) := do
  let (path, rest) ← path? cs
  let key ← path.getLast?
  let (v, rest) ← item (skipSpace (← after? '=' rest))
  return ((path.dropLast, key, v), rest)

/-- The pairs of a table between braces. -/
def pairs? (item : List Char → Option (Toml × List Char)) :
    Nat → List Char → Option (List (List String × String × Toml) × List Char)
  | 0, _ => none
  | fuel + 1, cs => do
    let (p, rest) ← pair? item cs
    match skipSpace rest with
    | '\x7d' :: rest => return ([p], rest)
    | ',' :: rest =>
      let (ps, rest) ← pairs? item fuel rest
      return (p :: ps, rest)
    | _ => none

/-- A table between braces, behind the opening one. -/
def inlineTable? (item : List Char → Option (Toml × List Char)) (cs : List Char) :
    Option (Toml × List Char) :=
  match skipSpace cs with
  | '\x7d' :: rest => some (table [], rest)
  | _ => do
    let (pairs, rest) ← pairs? item (cs.length + 1) cs
    let entries ← defineAll pairs []
    return (table (Entry.toTomlEntries entries), rest)

/-- A value in which arrays and tables are nested at most `depth` levels. -/
def value? : Nat → List Char → Option (Toml × List Char)
  | 0, cs => scalar? cs
  | depth + 1, cs =>
    match cs with
    | '[' :: rest => (items? (value? depth) (rest.length + 1) rest).map fun r => (array r.1, r.2)
    | '\x7b' :: rest => inlineTable? (value? depth) rest
    | _ => scalar? cs

/-- What a line says. -/
inductive Line
  /-- A key, as the path to its table and the last part, with its value. -/
  | pair (path : List String) (key : String) (v : Toml)
  /-- The header of a table, which may be one of several. -/
  | header (path : List String) (key : String) (repeated : Bool)

/-- The text after the end of a line. -/
def lineEnd? (cs : List Char) : Option (List Char) := do
  let rest ← skipComment (skipSpace cs)
  if rest.isEmpty then return [] else newline? rest

/-- A header behind its opening brackets. -/
def header? (repeated : Bool) (cs : List Char) : Option (Line × List Char) := do
  let (path, rest) ← path? cs
  let key ← path.getLast?
  let rest ← after? ']' rest
  let rest ← if repeated then after? ']' rest else some rest
  return (.header path.dropLast key repeated, rest)

/-- A line that says something. -/
def line? (cs : List Char) : Option (Line × List Char) :=
  match cs with
  | '[' :: '[' :: rest => header? true rest
  | '[' :: rest => header? false rest
  | _ => (pair? (value? maxDepth) cs).map fun r => (.pair r.1.1 r.1.2.1 r.1.2.2, r.2)

/-- The lines of a file that say something. -/
def lines? : Nat → List Char → Option (List Line)
  | 0, _ => none
  | fuel + 1, cs => do
    let cs ← afterGap cs
    if cs.isEmpty then return []
    let (l, rest) ← line? cs
    let ls ← lines? fuel (← lineEnd? rest)
    return l :: ls

/-- The pairs up to the next header, and the lines from there on. -/
def leadingPairs : List Line → List (List String × String × Toml) × List Line
  | .pair path key v :: ls =>
    let (ps, rest) := leadingPairs ls
    ((path, key, v) :: ps, rest)
  | ls => ([], ls)

/-- Writes the tables with headers. -/
def sections : Nat → List Line → Entries → Option Entries
  | 0, _, _ => none
  | _, [], entries => some entries
  | fuel + 1, .header path key repeated :: ls, entries => do
    let (pairs, rest) := leadingPairs ls
    let write := if repeated then defineNext key else defineTable key
    sections fuel rest (← reach (write (defineAll pairs)) path entries)
  | _, .pair _ _ _ :: _, _ => none

/-- The table that the lines of a file form. -/
def ofLines? (lines : List Line) : Option Toml := do
  let (pairs, rest) := leadingPairs lines
  let root ← defineAll pairs []
  let entries ← sections (lines.length + 1) rest root
  return table (Entry.toTomlEntries entries)

/-- The table that a file holds. A byte order mark before it is passed over. -/
def parse? (text : String) : Option Toml := do
  let cs := match text.toList with
    | '\uFEFF' :: cs => cs
    | cs => cs
  ofLines? (← lines? (cs.length + 1) cs)

end Toml

end Stencil
