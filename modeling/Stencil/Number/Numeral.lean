import Stencil.Number.Basic
import Stencil.Text.Blank
/-!
# Numerals

The longest number at the head of a text. A text with a point anywhere is read as a
floating-point number, any other as an integer; what follows the number is ignored.
-/

namespace Stencil

namespace Number

/-- The value of a list of decimal digits. -/
def digitsValue (ds : List Char) : Nat :=
  ds.foldl (fun n c => 10 * n + (c.toNat - '0'.toNat)) 0

/-- The digits at the head of a text. -/
def leadingDigits (cs : List Char) : List Char :=
  cs.takeWhile Char.isDigit

/-- One sign, if there is one, and the rest. -/
def signed : List Char → Bool × List Char
  | '-' :: cs => (true, cs)
  | '+' :: cs => (false, cs)
  | cs => (false, cs)

/-- The digits after a point that stands right behind the leading digits. -/
def fractionDigits (cs : List Char) : List Char :=
  match cs.dropWhile Char.isDigit with
  | '.' :: rest => leadingDigits rest
  | _ => []

/-- The integer with these digits, if there are any and it fits. -/
def intOfDigits? (negative : Bool) (ds : List Char) : Option Number :=
  if ds.isEmpty then none
  else
    let n : Int := digitsValue ds
    (fit? (if negative then -n else n)).map int

/-- The floating-point number with these digits before and after its point, if there are any. -/
def floatOfDigits? (negative : Bool) (whole fraction : List Char) : Option Number :=
  if whole.isEmpty && fraction.isEmpty then none
  else
    let x := Float.ofScientific (digitsValue (whole ++ fraction)) true fraction.length
    some (float (if negative then -x else x))

/-- The value of a text that consists of digits alone. -/
def digits? (cs : List Char) : Option Nat :=
  if !cs.isEmpty && cs.all Char.isDigit then some (digitsValue cs) else none

/-- The value of digits with at most a plus sign in front of them. -/
def natural? : List Char → Option Nat
  | '+' :: cs => digits? cs
  | cs => digits? cs

/-- The value of digits with at most one sign in front of them, if it fits. -/
def integer? (cs : List Char) : Option Int64 := do
  let (negative, body) := signed cs
  let n : Int ← digits? body
  fit? (if negative then -n else n)

/-- The number that a text starts with, blanks and one sign aside. -/
def ofText? (text : List Char) : Option Number :=
  let trimmed := Text.trim text
  let (negative, body) := signed trimmed
  if '.' ∈ trimmed then floatOfDigits? negative (leadingDigits body) (fractionDigits body)
  else intOfDigits? negative (leadingDigits body)

example : ofText? " -12px".toList = some (int (-12)) := by decide +kernel
example : ofText? "1.2.3".toList = some (float 1.2) := by decide +kernel
example : ofText? "-+5".toList = none := by decide +kernel

end Number

end Stencil
