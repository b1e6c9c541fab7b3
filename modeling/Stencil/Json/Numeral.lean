import Stencil.Number.Numeral
/-!
# Numerals in JSON

An integer in range stays an integer. Any other numeral is read in two steps: its leading digits,
as many as fit into 64 bits, become a floating-point number, and this is multiplied or divided
once by a power of ten. The result can differ from the nearest number in its last place; a result
beyond the largest number is refused.
-/

namespace Stencil

namespace Json

namespace Numeral

/-- The digits read so far: a significand below `2 ^ 64` and the power of ten that it lacks. -/
structure Significand where
  value : Nat
  exponent : Int
  /-- Whether a digit has been left out because it did not fit. -/
  full : Bool

/-- The significand with one more digit, if it fits. -/
def Significand.push? (s : Significand) (c : Char) : Option Nat :=
  let value := 10 * s.value + (c.toNat - '0'.toNat)
  if value < UInt64.size then some value else none

/-- A digit before the point. Once one digit has been left out, all are. -/
def Significand.whole (s : Significand) (c : Char) : Significand :=
  match if s.full then none else s.push? c with
  | some value => { s with value }
  | none => { s with exponent := s.exponent + 1, full := true }

/-- A digit after the point. Those that do not fit are dropped. -/
def Significand.fraction (s : Significand) (c : Char) : Significand :=
  match if s.full then none else s.push? c with
  | some value => { s with value, exponent := s.exponent - 1 }
  | none => { s with full := true }

/-- The digits before the point. -/
def Significand.ofWhole (ds : List Char) : Significand :=
  ds.foldl whole ⟨0, 0, false⟩

/-- The significand with the digits behind the point, which are tried anew. -/
def Significand.withFraction (s : Significand) (ds : List Char) : Significand :=
  ds.foldl fraction { s with full := false }

/-- The powers of ten from `1` to `10 ^ 308`. -/
def powerOfTen (n : Nat) : Float :=
  Float.ofScientific 1 false n

/-- `x` times ten to the given power, in steps of at most `308` downwards. -/
def scaled? : Nat → Float → Int → Option Float
  | 0, x, _ => some x
  | steps + 1, x, e =>
    if e.natAbs ≤ 308 then
      if 0 ≤ e then
        let y := x * powerOfTen e.natAbs
        if y.isInf then none else some y
      else some (x / powerOfTen e.natAbs)
    else if x == 0 then some x
    else if 0 ≤ e then none
    else scaled? steps (x / powerOfTen 308) (e + 308)

/-- The number with a significand and an exponent. -/
def number? (negative : Bool) (s : Significand) : Option Number := do
  let x ← scaled? (s.exponent.natAbs / 308 + 1) s.value.toUInt64.toFloat s.exponent
  some (.float (if negative then -x else x))

/-- An integer without point and exponent, none of whose digits was left out. Zero with a sign is
a floating-point number. -/
def integer (negative : Bool) (n : Nat) : Number :=
  match if negative && n == 0 then none else Number.fit? (if negative then -n else n) with
  | some i => .int i
  | none => .float (if negative then -n.toUInt64.toFloat else n.toUInt64.toFloat)

/-- The exponents of 32 bits. -/
def clamp (e : Int) : Int :=
  max Int32.minValue.toInt (min e Int32.maxValue.toInt)

/-- A numeral with an explicit exponent. An exponent that does not fit into 32 bits makes zero of
any numeral that it lessens, and of zero. -/
def withExponent? (negative : Bool) (s : Significand) (down : Bool) (ds : List Char) :
    Option Number :=
  let e := Number.digitsValue ds
  if Int32.maxValue.toInt < e then
    if s.value ≠ 0 && !down then none else some (.float (if negative then -0.0 else 0.0))
  else
    number? negative { s with exponent := clamp (if down then s.exponent - e else s.exponent + e) }

/-- The exponent part at the head of a text, if it starts with its letter. -/
def exponentPart? : List Char → Option (Bool × List Char × List Char)
  | c :: cs =>
    if c == 'e' || c == 'E' then
      let (down, rest) := match cs with
        | '-' :: r => (true, r)
        | '+' :: r => (false, r)
        | r => (false, r)
      some (down, Number.leadingDigits rest, rest.dropWhile Char.isDigit)
    else none
  | [] => none

/-- The end of a numeral, from its exponent on. -/
def finish? (negative : Bool) (s : Significand) (cs : List Char) : Option (Number × List Char) :=
  match exponentPart? cs with
  | some (down, ds, rest) =>
    if ds.isEmpty then none else (withExponent? negative s down ds).map (·, rest)
  | none => (number? negative s).map (·, cs)

/-- The numeral at the head of a text, after its sign. -/
def unsigned? (negative : Bool) (cs : List Char) : Option (Number × List Char) :=
  let whole := Number.leadingDigits cs
  let s := Significand.ofWhole whole
  if whole.isEmpty || whole.head? == some '0' && 1 < whole.length then none
  else match cs.dropWhile Char.isDigit with
    | '.' :: rest =>
      let ds := Number.leadingDigits rest
      if ds.isEmpty then none
      else finish? negative (s.withFraction ds) (rest.dropWhile Char.isDigit)
    | rest =>
      if (exponentPart? rest).isNone && !s.full then some (integer negative s.value, rest)
      else finish? negative s rest

/-- The numeral at the head of a text. -/
def read? : List Char → Option (Number × List Char)
  | '-' :: cs => unsigned? true cs
  | cs => unsigned? false cs

end Numeral

end Json

end Stencil
