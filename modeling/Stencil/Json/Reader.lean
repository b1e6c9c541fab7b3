import Stencil.Json.Basic
import Stencil.Json.Numeral
/-!
# Reading JSON

A text is read as one value with blanks around it. Objects come out in the order of their keys,
and of several members with one key the last one counts. Arrays and objects may be nested up to a
given depth.
-/

namespace Stencil

namespace Json

/-- The blanks that may stand between the parts of a value. -/
def isGap (c : Char) : Bool :=
  c == ' ' || c == '\n' || c == '\t' || c == '\r'

/-- The text after its leading blanks. -/
def skipGap (cs : List Char) : List Char :=
  cs.dropWhile isGap

/-- The value of a hexadecimal digit. -/
def hexDigit? (c : Char) : Option Nat :=
  if c.isDigit then some (c.toNat - '0'.toNat)
  else if 'a' ≤ c && c ≤ 'f' then some (c.toNat - 'a'.toNat + 10)
  else if 'A' ≤ c && c ≤ 'F' then some (c.toNat - 'A'.toNat + 10)
  else none

/-- The value of four hexadecimal digits. -/
def hexUnit? (a b c d : Char) : Option Nat := do
  some (((← hexDigit? a) * 16 + (← hexDigit? b)) * 256 + ((← hexDigit? c) * 16 + (← hexDigit? d)))

/-- The character that a letter stands for after a backslash. -/
def simpleEscape? : Char → Option Char
  | '"' => some '"'
  | '\\' => some '\\'
  | '/' => some '/'
  | 'b' => some '\x08'
  | 'f' => some '\x0c'
  | 'n' => some '\n'
  | 'r' => some '\r'
  | 't' => some '\t'
  | _ => none

/-- The first half of a pair of units for one character. -/
def isHighUnit (n : Nat) : Bool :=
  0xD800 ≤ n && n < 0xDC00

/-- The second half of such a pair. -/
def isLowUnit (n : Nat) : Bool :=
  0xDC00 ≤ n && n < 0xE000

/-- The characters up to the closing quote. A half of a pair never stands alone, and control
characters are written as escapes. -/
def stringBody? : List Char → Option (List Char × List Char)
  | '"' :: cs => some ([], cs)
  | '\\' :: 'u' :: a :: b :: c :: d :: cs => do
    let unit ← hexUnit? a b c d
    if isLowUnit unit then none
    else if isHighUnit unit then
      match cs with
      | '\\' :: 'u' :: e :: f :: g :: h :: cs =>
        let second ← hexUnit? e f g h
        if isLowUnit second then
          let (rest, after) ← stringBody? cs
          some (Char.ofNat (0x10000 + (unit - 0xD800) * 0x400 + (second - 0xDC00)) :: rest, after)
        else none
      | _ => none
    else
      let (rest, after) ← stringBody? cs
      some (Char.ofNat unit :: rest, after)
  | '\\' :: c :: cs => do
    let e ← simpleEscape? c
    let (rest, after) ← stringBody? cs
    some (e :: rest, after)
  | c :: cs =>
    if c.toNat < 0x20 then none
    else do
      let (rest, after) ← stringBody? cs
      some (c :: rest, after)
  | [] => none

/-- A quoted text. -/
def quotedText? : List Char → Option (String × List Char)
  | '"' :: cs => (stringBody? cs).map fun r => (String.ofList r.1, r.2)
  | _ => none

/-- A value that is neither an array nor an object. -/
def scalar? (cs : List Char) : Option (Json × List Char) :=
  match cs with
  | 'n' :: 'u' :: 'l' :: 'l' :: rest => some (null, rest)
  | 't' :: 'r' :: 'u' :: 'e' :: rest => some (bool true, rest)
  | 'f' :: 'a' :: 'l' :: 's' :: 'e' :: rest => some (bool false, rest)
  | '"' :: _ => (quotedText? cs).map fun r => (string r.1, r.2)
  | _ => (Numeral.read? cs).map fun r => (number r.1, r.2)

/-- The items of an array up to its bracket, each read by `item`. There are fewer items than
characters, so `fuel` is the length of the text. -/
def items? (item : List Char → Option (Json × List Char)) :
    Nat → List Char → Option (List Json × List Char)
  | 0, _ => none
  | fuel + 1, cs => do
    let (j, rest) ← item (skipGap cs)
    match skipGap rest with
    | ']' :: rest => some ([j], rest)
    | ',' :: rest =>
      let (js, rest) ← items? item fuel rest
      some (j :: js, rest)
    | _ => none

/-- One member of an object. -/
def member? (item : List Char → Option (Json × List Char)) (cs : List Char) :
    Option ((String × Json) × List Char) := do
  let (key, rest) ← quotedText? (skipGap cs)
  match skipGap rest with
  | ':' :: rest =>
    let (j, rest) ← item (skipGap rest)
    some ((key, j), rest)
  | _ => none

/-- The members of an object up to its brace. -/
def members (item : List Char → Option (Json × List Char)) :
    Nat → List Char → Option (List (String × Json) × List Char)
  | 0, _ => none
  | fuel + 1, cs => do
    let (m, rest) ← member? item cs
    match skipGap rest with
    | '\x7d' :: rest => some ([m], rest)
    | ',' :: rest =>
      let (ms, rest) ← members item fuel rest
      some (m :: ms, rest)
    | _ => none

/-- A value in which arrays and objects are nested at most `depth` levels. -/
def value? : Nat → List Char → Option (Json × List Char)
  | 0, cs => match cs with
    | '[' :: _ => none
    | '\x7b' :: _ => none
    | _ => scalar? cs
  | depth + 1, cs => match cs with
    | '[' :: rest => match skipGap rest with
      | ']' :: rest => some (array [], rest)
      | _ => (items? (value? depth) (rest.length + 1) rest).map fun r => (array r.1, r.2)
    | '\x7b' :: rest => match skipGap rest with
      | '\x7d' :: rest => some (object [], rest)
      | _ => (members (value? depth) (rest.length + 1) rest).map fun r =>
          (object (Table.sorted r.1), r.2)
    | _ => scalar? cs

/-- The deepest nesting that is read. -/
def maxNesting : Nat := 127

/-- The value that a whole text holds, nested no deeper than `depth` levels. -/
def parseTo? (depth : Nat) (text : String) : Option Json := do
  let (j, rest) ← value? depth (skipGap text.toList)
  if (skipGap rest).isEmpty then some j else none

/-- The value that a whole text holds. -/
def parse? (text : String) : Option Json :=
  parseTo? maxNesting text

end Json

end Stencil
