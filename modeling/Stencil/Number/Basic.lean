import Stencil.Decimal.Layout
/-!
# Numbers

A number is a 64-bit integer or a binary floating-point number. Arithmetic on integers is exact
where the result is an integer in range, and falls back to floating point where it is not.
-/

namespace Stencil

/-- A number as templates know it. -/
inductive Number
  | int (n : Int64)
  | float (x : Float)
  deriving DecidableEq

namespace Number

/-- The floating-point number nearest to an integer. -/
def floatOfInt (n : Int64) : Float :=
  if n.toInt < 0 then -n.toInt.natAbs.toUInt64.toFloat else n.toInt.toNat.toUInt64.toFloat

/-- The number as a floating-point number. -/
def toFloat : Number → Float
  | int n => floatOfInt n
  | float x => x

/-- An integer as a number of 64 bits, if it fits. -/
def fit? (n : Int) : Option Int64 :=
  if Int64.minValue.toInt ≤ n ∧ n ≤ Int64.maxValue.toInt then some (Int64.ofInt n) else none

/-- Two integers are compared exactly, any other two numbers as floating-point numbers. -/
def equal : Number → Number → Bool
  | int a, int b => a == b
  | a, b => a.toFloat == b.toFloat

/-- The order of two numbers as floating-point numbers; none if one of them is not a number. -/
def compare? (a b : Number) : Option Ordering :=
  if a.toFloat < b.toFloat then some .lt
  else if a.toFloat == b.toFloat then some .eq
  else if b.toFloat < a.toFloat then some .gt
  else none

/-- Whether the number is above zero. -/
def isPositive : Number → Bool
  | int n => 0 < n
  | float x => (0 : Float) < x

/-- The exact result of two integers, if it fits, else the floating-point result. -/
def lift (exact : Int → Int → Int) (rounded : Float → Float → Float) : Number → Number → Number
  | int a, int b =>
    match fit? (exact a.toInt b.toInt) with
    | some n => int n
    | none => float (rounded (floatOfInt a) (floatOfInt b))
  | a, b => float (rounded a.toFloat b.toFloat)

/-- The sum. -/
def add : Number → Number → Number := lift (· + ·) (· + ·)

/-- The difference. -/
def sub : Number → Number → Number := lift (· - ·) (· - ·)

/-- The product. -/
def mul : Number → Number → Number := lift (· * ·) (· * ·)

/-- The quotient: of two integers an integer where the division is exact and the result fits, and
none by the integer zero. -/
def div? : Number → Number → Option Number
  | int a, int b =>
    if b.toInt = 0 then none
    else if a.toInt % b.toInt = 0 then
      match fit? (a.toInt / b.toInt) with
      | some n => some (int n)
      | none => some (float (floatOfInt a / floatOfInt b))
    else some (float (floatOfInt a / floatOfInt b))
  | a, b => some (float (a.toFloat / b.toFloat))

/-- The whole number that a floating-point number is. -/
def wholeOfFloat? (x : Float) : Option Int :=
  if x.isFinite then
    let b := Decimal.Binary.ofBits (Decimal.magnitudeBits x)
    let scaled := b.mantissa * Nat.pow 2 b.exponent.toNat
    let unit := Nat.pow 2 (-b.exponent).toNat
    if scaled % unit = 0 then
      some (if Decimal.isNegative x then -(scaled / unit : Nat) else (scaled / unit : Nat))
    else none
  else none

/-- The whole number that a number is. -/
def whole? : Number → Option Int
  | int n => some n.toInt
  | float x => wholeOfFloat? x

/-- Numbers are shown in full, whole numbers without a point, and zero without a sign. -/
def layout : Decimal.Layout where
  inFull _ := true
  wholeEnd := ""
  zero := "0"
  negativeZero := "0"
  nan := "NaN"
  infinity := "inf"
  negativeInfinity := "-inf"
  tie := .up

/-- The number as templates show it. -/
def display : Number → String
  | int n => Decimal.ofInt n.toInt
  | float x => layout.write x

example : (float 3.5).display = "3.5" := by decide +kernel
example : (float (-0.0)).display = "0" := by decide +kernel
example : (int (-12)).display = "-12" := by decide +kernel
example : (float (-3)).whole? = some (-3) := by decide +kernel
example : (float 2.5).whole? = none := by decide +kernel

end Number

end Stencil
