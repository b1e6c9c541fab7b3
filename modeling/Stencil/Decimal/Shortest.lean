/-!
# The shortest decimal that reads back

A finite binary number is `m · 2 ^ q`; the reals that round to it form an interval around it. The
shortest decimal is the multiple of the largest power of ten that lies in this interval, and of
two such multiples the nearer one. All comparisons are made between natural numbers, on a common
denominator.
-/

namespace Stencil

namespace Decimal

/-- The absolute value `mantissa * 2 ^ exponent` of a finite number that is not zero. -/
structure Binary where
  mantissa : Nat
  exponent : Int
  /-- Whether the next smaller number is only half as far away as the next larger one. -/
  narrow : Bool

/-- The value `coefficient * 10 ^ exponent`. -/
structure Scaled where
  coefficient : Nat
  exponent : Int
  deriving DecidableEq

/-- The highest of the 64 bits of a number, which is its sign. -/
def signBit : Nat := 0x8000000000000000

/-- The lowest of the bits that hold the exponent. The 52 bits below it hold the fraction. -/
def exponentUnit : Nat := 0x10000000000000

/-- Whether the sign of a number is set. Zero has a sign too. -/
def isNegative (x : Float) : Bool :=
  signBit ≤ x.toBits.toNat

/-- The bits of a number without its sign. -/
def magnitudeBits (x : Float) : Nat :=
  x.toBits.toNat % signBit

/-- The absolute value that the bits of a finite number without sign stand for. -/
def Binary.ofBits (bits : Nat) : Binary :=
  let fraction := bits % exponentUnit
  let biased := bits / exponentUnit
  if biased = 0 then ⟨fraction, -1074, false⟩
  else ⟨fraction + exponentUnit, (biased : Int) - 1075, fraction = 0 && 1 < biased⟩

/-- Four times a value, the two ends of its interval alike, over one denominator. -/
structure Span where
  low : Nat
  value : Nat
  high : Nat
  denominator : Nat
  /-- Whether the ends themselves round to the value. -/
  closed : Bool

/-- The numbers that round to `b`: up to half the distance to either neighbour. -/
def Binary.span (b : Binary) : Span :=
  let scale := Nat.pow 2 (b.exponent - 2).toNat
  { low := (4 * b.mantissa - if b.narrow then 1 else 2) * scale
    value := 4 * b.mantissa * scale
    high := (4 * b.mantissa + 2) * scale
    denominator := Nat.pow 2 (2 - b.exponent).toNat
    closed := b.mantissa % 2 = 0 }

/-- The span in units of `10 ^ k`. -/
def Span.inUnits (s : Span) (k : Int) : Span :=
  let up := Nat.pow 10 (-k).toNat
  { s with
    low := s.low * up
    value := s.value * up
    high := s.high * up
    denominator := s.denominator * Nat.pow 10 k.toNat }

/-- Whether the whole number `n` lies in the span. -/
def Span.holds (s : Span) (n : Nat) : Bool :=
  let x := n * s.denominator
  if s.closed then s.low ≤ x && x ≤ s.high else s.low < x && x < s.high

/-- Which of two equally near neighbours is taken. -/
inductive Tie
  | even
  | up
  deriving DecidableEq

/-- The whole number in the span that is nearest to its value, if one of the two neighbours of
the value lies there. -/
def Span.nearest? (tie : Tie) (s : Span) : Option Nat :=
  let below := s.value / s.denominator
  let above := below + 1
  match s.holds below, s.holds above with
  | true, true =>
    let down := s.value - below * s.denominator
    let up := above * s.denominator - s.value
    if down < up then some below
    else if up < down then some above
    else match tie with
      | .even => if below % 2 = 0 then some below else some above
      | .up => some above
  | true, false => some below
  | false, true => some above
  | false, false => none

/-- An exponent of ten above every decimal in the span. -/
def Span.ceiling (s : Span) : Nat :=
  (Nat.toDigits 10 (s.high / s.denominator)).length

/-- The shortest decimal in the rounding interval of `b`. Exponents are tried from the largest
down; the smallest power of ten that can be needed is `10 ^ -326`. -/
def shortest (tie : Tie) (b : Binary) : Scaled :=
  let span := b.span
  let top : Int := span.ceiling
  let found := (List.range (span.ceiling + 327)).findSome? fun (i : Nat) =>
    ((span.inUnits (top - i)).nearest? tie).map fun n => Scaled.mk n (top - i)
  found.getD ⟨0, 0⟩

end Decimal

end Stencil
