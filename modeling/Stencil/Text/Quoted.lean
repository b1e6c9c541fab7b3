import Stencil.Text.Ranges
import Stencil.Text.VisibleTable
/-!
# Texts shown in messages and listings

A text is shown with escapes for quotes, backslashes and every character that would not be seen.
In a message (`escaped`) both quotes are escaped, and an extending character only where it has
nothing to extend, at the front; in a listing (`quoted`) the text stands between double quotes,
single quotes stay, and every extending character is escaped.
-/

namespace Stencil

namespace Text

/-- Whether `c` is not seen when it is printed. -/
def isHidden (c : Char) : Bool :=
  if c.toNat < 0x80 then c.toNat < 0x20 || c.toNat == 0x7F else inRanges hiddenRanges c

/-- Whether `c` joins with the character before it. -/
def isExtender (c : Char) : Bool :=
  0x80 ≤ c.toNat && inRanges extenderRanges c

/-- The code point of `c` between braces. -/
def codePoint (c : Char) : List Char :=
  '\\' :: 'u' :: '\x7b' :: (Nat.toDigits 16 c.toNat ++ ['\x7d'])

/-- One character as it is shown. `singleQuote` and `extenders` say whether these are escaped. -/
def shownChar (singleQuote extenders : Bool) (c : Char) : List Char :=
  match c with
  | '\x00' => ['\\', '0']
  | '\t' => ['\\', 't']
  | '\r' => ['\\', 'r']
  | '\n' => ['\\', 'n']
  | '\\' => ['\\', '\\']
  | '"' => ['\\', '"']
  | '\'' => if singleQuote then ['\\', '\''] else ['\'']
  | c => if extenders && isExtender c || isHidden c then codePoint c else [c]

/-- A text as it is shown in a message. -/
def escaped : List Char → List Char
  | [] => []
  | c :: cs => shownChar true true c ++ cs.flatMap (shownChar true false)

/-- A text as it is shown in a listing. -/
def quoted (cs : List Char) : List Char :=
  '"' :: (cs.flatMap (shownChar false true) ++ ['"'])

end Text

end Stencil
