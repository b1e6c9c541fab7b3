import Stencil.Decimal.Shortest
/-!
# Layouts of numbers

How a number is written is a `Layout`: which powers of ten are written in full, whether a whole
number keeps a point, and the texts of the values that have no digits. The digits themselves are
always the shortest that read back.
-/

namespace Stencil

namespace Decimal

/-- The choices that a format makes when it writes a number. -/
structure Layout where
  /-- Whether a number whose first digit stands at this power of ten is written in full. -/
  inFull : Int → Bool
  /-- What follows a whole number that is written in full. -/
  wholeEnd : String
  /-- Zero, and zero with a sign. -/
  zero : String
  negativeZero : String
  nan : String
  infinity : String
  negativeInfinity : String
  tie : Tie

/-- The decimal digits of `n`. -/
def digitsOf (n : Nat) : List Char :=
  Nat.toDigits 10 n

/-- The decimal numeral of an integer. -/
def ofInt (n : Int) : String :=
  if n < 0 then "-" ++ String.ofList (digitsOf n.natAbs) else String.ofList (digitsOf n.toNat)

/-- The value without an exponent. -/
def Scaled.full (wholeEnd : String) (d : Scaled) : String :=
  let ds := digitsOf d.coefficient
  let point : Int := ds.length + d.exponent
  if 0 ≤ d.exponent then
    String.ofList (ds ++ List.replicate d.exponent.toNat '0') ++ wholeEnd
  else if 0 < point then
    String.ofList (ds.take point.toNat ++ '.' :: ds.drop point.toNat)
  else "0." ++ String.ofList (List.replicate (-point).toNat '0' ++ ds)

/-- The value with one digit before the point and a signed exponent. -/
def Scaled.scientific (d : Scaled) : String :=
  let ds := digitsOf d.coefficient
  let e : Int := ds.length - 1 + d.exponent
  let mantissa := match ds with
    | [] => []
    | [c] => [c]
    | c :: cs => c :: '.' :: cs
  String.ofList mantissa ++ "e" ++ (if e < 0 then "" else "+") ++ ofInt e

/-- The absolute value of a finite number that is not zero. -/
def Layout.magnitude (l : Layout) (bits : Nat) : String :=
  let d := shortest l.tie (Binary.ofBits bits)
  if l.inFull ((digitsOf d.coefficient).length - 1 + d.exponent) then d.full l.wholeEnd
  else d.scientific

/-- The text of `x` in a layout. -/
def Layout.write (l : Layout) (x : Float) : String :=
  if x.isNaN then l.nan
  else if !x.isFinite then if isNegative x then l.negativeInfinity else l.infinity
  else if magnitudeBits x = 0 then if isNegative x then l.negativeZero else l.zero
  else (if isNegative x then "-" else "") ++ l.magnitude (magnitudeBits x)

end Decimal

end Stencil
