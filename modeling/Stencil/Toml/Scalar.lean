import Stencil.Number.Numeral
import Stencil.Toml.Basic
import Stencil.Toml.Text
/-!
# Numbers, dates and times in TOML

Digits may be grouped by single underscores. A number with a fraction or an exponent is a
floating-point number; whole numbers may also be written to the bases 16, 8 and 2.
-/

namespace Stencil

namespace Toml

/-! ## Numbers -/

/-- The digits behind a digit, with single underscores between them left out. -/
def moreDigits (isDigit : Char → Bool) : List Char → List Char × List Char
  | '_' :: c :: cs =>
    if isDigit c then
      let (ds, rest) := moreDigits isDigit cs
      (c :: ds, rest)
    else ([], '_' :: c :: cs)
  | c :: cs =>
    if isDigit c then
      let (ds, rest) := moreDigits isDigit cs
      (c :: ds, rest)
    else ([], c :: cs)
  | [] => ([], [])

/-- One digit or more. -/
def digits? (isDigit : Char → Bool) : List Char → Option (List Char × List Char)
  | c :: cs =>
    if isDigit c then
      let (ds, rest) := moreDigits isDigit cs
      some (c :: ds, rest)
    else none
  | [] => none

/-- The digits of a decimal number before its point; nothing follows a leading zero. -/
def wholeDigits? : List Char → Option (List Char × List Char)
  | '0' :: cs => some (['0'], cs)
  | cs => digits? Char.isDigit cs

/-- The digits after a point; none if there is no point. -/
def fraction? : List Char → Option (List Char × List Char)
  | '.' :: cs => digits? Char.isDigit cs
  | cs => some ([], cs)

/-- The exponent, if there is one. -/
def exponent? : List Char → Option (Option Int × List Char)
  | c :: cs =>
    if c == 'e' || c == 'E' then do
      let (negative, cs) := Number.signed cs
      let (ds, rest) ← digits? Char.isDigit cs
      let n : Int := Number.digitsValue ds
      return (some (if negative then -n else n), rest)
    else some (none, c :: cs)
  | [] => some (none, [])

/-- The floating-point number with these digits times a power of ten. Powers beyond the range of
all such numbers are not computed. -/
def floatOf (ds : List Char) (exponent : Int) : Float :=
  let n := Number.digitsValue ds
  if n = 0 then 0
  else if 400 < exponent then 1 / 0
  else if ds.length + exponent < -400 then 0
  else if exponent < 0 then Float.ofScientific n true exponent.natAbs
  else Float.ofScientific n false exponent.natAbs

/-- The integer, if it fits. -/
def integer? (n : Int) : Option Toml :=
  (Number.fit? n).map integer

/-- A number to the base ten. A floating-point number must not be too large. -/
def decimal? (negative : Bool) (cs : List Char) : Option (Toml × List Char) := do
  let (whole, rest) ← wholeDigits? cs
  let (fraction, rest) ← fraction? rest
  let (exponent, rest) ← exponent? rest
  if fraction.isEmpty && exponent.isNone then
    let n : Int := Number.digitsValue whole
    return (← integer? (if negative then -n else n), rest)
  else
    let x := floatOf (whole ++ fraction) (exponent.getD 0 - fraction.length)
    if x.isInf && !negative then none
    else return (float (if negative then -x else x), rest)

/-- The value of a digit to a base up to 16. -/
def digitOf? (base : Nat) (c : Char) : Option Nat :=
  (Json.hexDigit? c).filter (· < base)

/-- A whole number to another base, without its prefix. -/
def based? (base : Nat) (cs : List Char) : Option (Toml × List Char) := do
  let (ds, rest) ← digits? (fun c => (digitOf? base c).isSome) cs
  let n := (ds.filterMap (digitOf? base)).foldl (fun n d => base * n + d) 0
  return (← integer? n, rest)

/-- A number. -/
def number? (cs : List Char) : Option (Toml × List Char) :=
  match cs with
  | '0' :: 'x' :: rest => based? 16 rest
  | '0' :: 'o' :: rest => based? 8 rest
  | '0' :: 'b' :: rest => based? 2 rest
  | _ =>
    let (negative, body) := Number.signed cs
    match body with
    | 'i' :: 'n' :: 'f' :: rest => some (float (if negative then -1 / 0 else 1 / 0), rest)
    | 'n' :: 'a' :: 'n' :: rest => some (float (0 / 0), rest)
    | _ => decimal? negative body

/-! ## Dates and times -/

/-- A number of exactly so many digits between two bounds. -/
def field? (digits low high : Nat) (cs : List Char) : Option (Nat × List Char) := do
  let ds := cs.take digits
  let n ← Number.digits? ds
  if ds.length = digits ∧ low ≤ n ∧ n ≤ high then return (n, cs.drop digits) else none

/-- The text after a given character. -/
def after? (c : Char) : List Char → Option (List Char)
  | [] => none
  | d :: cs => if d == c then some cs else none

/-- Whether February has 29 days. -/
def isLeapYear (year : Nat) : Bool :=
  year % 4 == 0 && (year % 100 != 0 || year % 400 == 0)

/-- The number of days of a month. -/
def daysIn (year month : Nat) : Nat :=
  if month = 2 then if isLeapYear year then 29 else 28
  else if month ∈ [4, 6, 9, 11] then 30 else 31

/-- The text after a date. -/
def date? (cs : List Char) : Option (List Char) := do
  let (year, cs) ← field? 4 0 9999 cs
  let (month, cs) ← field? 2 1 12 (← after? '-' cs)
  let (_, cs) ← field? 2 1 (daysIn year month) (← after? '-' cs)
  return cs

/-- The text after a fraction of a second, if there is one. -/
def skipSecondFraction : List Char → List Char
  | '.' :: c :: cs => if c.isDigit then cs.dropWhile Char.isDigit else '.' :: c :: cs
  | cs => cs

/-- The text after a time of day. -/
def time? (cs : List Char) : Option (List Char) := do
  let (_, cs) ← field? 2 0 23 cs
  let (_, cs) ← field? 2 0 59 (← after? ':' cs)
  let (_, cs) ← field? 2 0 60 (← after? ':' cs)
  return skipSecondFraction cs

/-- The text after an offset from universal time. -/
def offset? : List Char → Option (List Char)
  | [] => none
  | c :: cs =>
    if c == 'Z' || c == 'z' then some cs
    else if c == '+' || c == '-' then do
      let (_, cs) ← field? 2 0 23 cs
      let (_, cs) ← field? 2 0 59 (← after? ':' cs)
      return cs
    else none

/-- The text after the time that follows a date. -/
def timeOfDate? : List Char → Option (List Char)
  | [] => none
  | c :: cs =>
    if c == 'T' || c == 't' || c == ' ' then do
      let cs ← time? cs
      return (offset? cs).getD cs
    else none

/-- A date, a date with a time, or a time. -/
def datetime? (cs : List Char) : Option (Toml × List Char) :=
  let stop := match date? cs with
    | some rest => some ((timeOfDate? rest).getD rest)
    | none => time? cs
  stop.map fun rest => (datetime (String.ofList (cs.take (cs.length - rest.length))), rest)

/-- A value that is neither an array nor a table. -/
def scalar? (cs : List Char) : Option (Toml × List Char) :=
  match cs with
  | 't' :: 'r' :: 'u' :: 'e' :: rest => some (bool true, rest)
  | 'f' :: 'a' :: 'l' :: 's' :: 'e' :: rest => some (bool false, rest)
  | '"' :: _ => (string? cs).map fun r => (string r.1, r.2)
  | '\'' :: _ => (string? cs).map fun r => (string r.1, r.2)
  | _ => (datetime? cs).or (number? cs)

end Toml

end Stencil
