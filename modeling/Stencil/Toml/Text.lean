import Stencil.Json.Reader
/-!
# Strings and keys in TOML

Strings stand between single quotes, which keep everything as it is, or between double quotes,
where a backslash starts an escape. Three quotes instead of one let a string go over several
lines. Each reader takes the text after the point it has reached and gives back what it leaves.
-/

namespace Stencil

namespace Toml

/-- Blanks inside a line. -/
def isSpace (c : Char) : Bool :=
  c == ' ' || c == '\t'

/-- The text after blanks inside a line. -/
def skipSpace (cs : List Char) : List Char :=
  cs.dropWhile isSpace

/-- The characters that may stand as they are; control characters are written as escapes. -/
def isPlain (c : Char) : Bool :=
  c == '\t' || (0x20 ≤ c.toNat && c.toNat != 0x7F)

/-- The text after the end of a line. -/
def newline? : List Char → Option (List Char)
  | '\n' :: cs => some cs
  | '\r' :: '\n' :: cs => some cs
  | _ => none

/-- The character with a code point of so many hexadecimal digits. -/
def codePoint? (digits : Nat) (cs : List Char) : Option (Char × List Char) := do
  let ds ← (cs.take digits).mapM Json.hexDigit?
  let n := ds.foldl (fun n d => 16 * n + d) 0
  if ds.length = digits ∧ n.isValidChar then some (Char.ofNat n, cs.drop digits) else none

/-- The character that stands behind a backslash. -/
def escape? : List Char → Option (Char × List Char)
  | 'b' :: cs => some ('\x08', cs)
  | 't' :: cs => some ('\t', cs)
  | 'n' :: cs => some ('\n', cs)
  | 'f' :: cs => some ('\x0c', cs)
  | 'r' :: cs => some ('\r', cs)
  | '"' :: cs => some ('"', cs)
  | '\\' :: cs => some ('\\', cs)
  | 'u' :: cs => codePoint? 4 cs
  | 'U' :: cs => codePoint? 8 cs
  | _ => none

/-- Puts a character in front of what was read after it. -/
def before (c : Char) : Option (List Char × List Char) → Option (List Char × List Char) :=
  Option.map fun r => (c :: r.1, r.2)

/-- A string up to its double quote. Every step takes a character, so that the length of the text
is fuel enough. -/
def basicBody? : Nat → List Char → Option (List Char × List Char)
  | fuel + 1, '\\' :: cs => do
    let (c, cs) ← escape? cs
    before c (basicBody? fuel cs)
  | fuel + 1, c :: cs =>
    if c == '"' then some ([], cs)
    else if isPlain c then before c (basicBody? fuel cs)
    else none
  | _, _ => none

/-- A string up to its single quote. -/
def literalBody? : List Char → Option (List Char × List Char)
  | [] => none
  | c :: cs =>
    if c == '\'' then some ([], cs)
    else if isPlain c then before c (literalBody? cs)
    else none

/-- Whether only blanks stand before the end of the line. -/
def endsLine (cs : List Char) : Bool :=
  (newline? (skipSpace cs)).isSome

/-- The text after blanks and ends of lines. -/
def skipLines : Nat → List Char → List Char
  | 0, cs => cs
  | fuel + 1, cs =>
    match newline? (skipSpace cs) with
    | some rest => skipLines fuel rest
    | none => skipSpace cs

/-- The quotes that end a string of several lines; up to two more belong to the string. -/
def closing? (quote : Char) : List Char → Option (List Char × List Char)
  | a :: b :: c :: rest =>
    if a == quote && b == quote && c == quote then
      let extra := (rest.takeWhile (· == quote)).take 2
      some (extra, rest.drop extra.length)
    else none
  | _ => none

/-- A string of several lines. In one between double quotes a backslash at the end of a line
swallows the blanks and lines after it. -/
def linesBody? (quote : Char) : Nat → List Char → Option (List Char × List Char)
  | 0, _ => none
  | fuel + 1, cs =>
    match closing? quote cs with
    | some r => some r
    | none =>
      match newline? cs with
      | some rest => before '\n' (linesBody? quote fuel rest)
      | none =>
        match cs with
        | [] => none
        | c :: rest =>
          if c == '\\' && quote == '"' then
            if endsLine rest then linesBody? quote fuel (skipLines rest.length rest)
            else do
              let (c, rest) ← escape? rest
              before c (linesBody? quote fuel rest)
          else if isPlain c then before c (linesBody? quote fuel rest)
          else none

/-- The text after the line end right behind an opening of three quotes. -/
def skipFirstNewline (cs : List Char) : List Char :=
  (newline? cs).getD cs

/-- A string on one line. -/
def lineString? : List Char → Option (String × List Char)
  | '"' :: cs => (basicBody? (cs.length + 1) cs).map fun r => (String.ofList r.1, r.2)
  | '\'' :: cs => (literalBody? cs).map fun r => (String.ofList r.1, r.2)
  | _ => none

/-- A string of any form. -/
def string? (cs : List Char) : Option (String × List Char) :=
  match cs with
  | '"' :: '"' :: '"' :: rest =>
    (linesBody? '"' (rest.length + 1) (skipFirstNewline rest)).map fun r =>
      (String.ofList r.1, r.2)
  | '\'' :: '\'' :: '\'' :: rest =>
    (linesBody? '\'' (rest.length + 1) (skipFirstNewline rest)).map fun r =>
      (String.ofList r.1, r.2)
  | _ => lineString? cs

/-- The characters of keys without quotes. -/
def isBare (c : Char) : Bool :=
  c.isAlphanum || c == '_' || c == '-'

/-- One part of a key. -/
def simpleKey? (cs : List Char) : Option (String × List Char) :=
  let bare := cs.takeWhile isBare
  if bare.isEmpty then lineString? cs else some (String.ofList bare, cs.drop bare.length)

/-- A key, whose parts are parted by points, with the blanks around it. -/
def key? : Nat → List Char → Option (List String × List Char)
  | 0, _ => none
  | fuel + 1, cs => do
    let (part, rest) ← simpleKey? (skipSpace cs)
    match skipSpace rest with
    | '.' :: rest =>
      let (parts, rest) ← key? fuel rest
      return (part :: parts, rest)
    | rest => return ([part], rest)

/-- The deepest nesting of arrays and tables, and the most parts of a key. -/
def maxDepth : Nat := 79

/-- A key that is not too long. -/
def path? (cs : List Char) : Option (List String × List Char) :=
  key? maxDepth cs

end Toml

end Stencil
