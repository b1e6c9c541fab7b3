import Stencil.Json.Basic
/-!
# Writing JSON

Compact text without any blanks, and text on several lines with two blanks of indentation per
level. Members are written in the order in which they stand.
-/

namespace Stencil

namespace Json

/-- Numbers keep a point, and those below `10 ^ -5` or from `10 ^ 16` on have an exponent. What is
not a number has no form of its own. -/
def layout : Decimal.Layout where
  inFull e := -5 ≤ e && e ≤ 15
  wholeEnd := ".0"
  zero := "0.0"
  negativeZero := "-0.0"
  nan := "null"
  infinity := "null"
  negativeInfinity := "null"
  tie := .even

example : layout.write 1e16 = "1e+16" := by decide +kernel
example : layout.write 1.5e-7 = "1.5e-7" := by decide +kernel
example : layout.write 2 = "2.0" := by decide +kernel

/-- The text of a number. -/
def numberText : Number → String
  | .int n => Decimal.ofInt n.toInt
  | .float x => layout.write x

/-- One character inside quotes. -/
def escapedChar (c : Char) : List Char :=
  match c with
  | '"' => ['\\', '"']
  | '\\' => ['\\', '\\']
  | '\x08' => ['\\', 'b']
  | '\x0c' => ['\\', 'f']
  | '\n' => ['\\', 'n']
  | '\r' => ['\\', 'r']
  | '\t' => ['\\', 't']
  | c =>
    if c.toNat < 0x20 then
      '\\' :: 'u' :: '0' :: '0' :: (if c.toNat < 0x10 then ['0'] else []) ++ Nat.toDigits 16 c.toNat
    else [c]

/-- A text between quotes. -/
def quoted (s : String) : String :=
  String.ofList ('"' :: (s.toList.flatMap escapedChar ++ ['"']))

mutual

/-- The value without blanks. -/
def compact : Json → String
  | null => "null"
  | bool b => if b then "true" else "false"
  | number n => numberText n
  | string s => quoted s
  | array items => "[" ++ ",".intercalate (compactItems items) ++ "]"
  | object members => "\x7b" ++ ",".intercalate (compactMembers members) ++ "\x7d"

def compactItems : List Json → List String
  | [] => []
  | j :: js => compact j :: compactItems js

def compactMembers : List (String × Json) → List String
  | [] => []
  | (k, j) :: js => (quoted k ++ ":" ++ compact j) :: compactMembers js

end

/-- Parts on lines of their own between two brackets, which close up if there are none. -/
def spread (opening closing indent : String) (parts : List String) : String :=
  if parts.isEmpty then opening ++ closing
  else
    let lines := parts.map fun p => "\n" ++ indent ++ "  " ++ p
    opening ++ ",".intercalate lines ++ "\n" ++ indent ++ closing

mutual

/-- The value on several lines; all but the first start with `indent`. -/
def pretty (indent : String) : Json → String
  | array items => spread "[" "]" indent (prettyItems (indent ++ "  ") items)
  | object members => spread "\x7b" "\x7d" indent (prettyMembers (indent ++ "  ") members)
  | null => "null"
  | bool b => if b then "true" else "false"
  | number n => numberText n
  | string s => quoted s

def prettyItems (indent : String) : List Json → List String
  | [] => []
  | j :: js => pretty indent j :: prettyItems indent js

def prettyMembers (indent : String) : List (String × Json) → List String
  | [] => []
  | (k, j) :: js => (quoted k ++ ": " ++ pretty indent j) :: prettyMembers indent js

end

end Json

end Stencil
