import Kaleidoscope.Number.Double

/-!
# Decimal notation

A magnitude is shown by significant digits and the place of the point. `Decimal.shortest` has the
fewest digits that read back as the same double and, of those, the nearest; `Decimal.rounded` has a
given number of digits, rounded from the exact value. A `Notation` says how they are laid out.
-/

namespace Kaleidoscope

/-- Significant digits, without zeros at either end, with the point so many places after the start. -/
structure Decimal where
  digits : List Char
  point : Int
  deriving DecidableEq, Repr

namespace Decimal

def ofScaled (significand : Nat) (exponent : Int) : Decimal :=
  let digits := Nat.toDigits 10 significand
  ⟨(digits.reverse.dropWhile (· == '0')).reverse, digits.length + exponent⟩

/-- A positive number that is at least the least double, 10^324 times over, is at least one. -/
def leastScale : Nat := 324

/-- Numerator and denominator of a magnitude in units of 2^-1074 over `10 ^ exponent`. -/
def gridFraction (units : Nat) (exponent : Int) : Nat × Nat :=
  (units * tenTo (-exponent).toNat, Double.unitsPerOne * tenTo exponent.toNat)

/-- The power of ten of the first significant digit of a positive magnitude. -/
def leadingExponent (units : Nat) : Int :=
  (Nat.toDigits 10 (units * tenTo leastScale / Double.unitsPerOne)).length - 1 - (leastScale : Int)

def readBack (significand : Nat) (exponent : Int) : Double :=
  Double.nearest (significand * tenTo exponent.toNat) (tenTo (-exponent).toNat)

/-- Of the two neighbours of `x` on the grid of multiples of `10 ^ exponent`, the nearer one that reads
back as `x`; midway between two the even one. -/
def onGrid? (x : Double) (exponent : Int) : Option Decimal :=
  let (num, den) := gridFraction x.units exponent
  let below := num / den
  let nearer := Double.divRoundEven num den
  let farther := if nearer == below then below + 1 else below
  if readBack nearer exponent == x then some (ofScaled nearer exponent)
  else if readBack farther exponent == x then some (ofScaled farther exponent)
  else none

/-- Every digit of a magnitude: 2^-1074 is 5^1074 times 10^-1074. -/
def exact (units : Nat) : Decimal :=
  ofScaled (units * Nat.pow 5 1074) (-1074)

/-- No more digits than these are needed to tell two doubles apart. -/
def mostDigits : Nat := 17

/-- The fewest digits that read back as the positive finite double `x`. -/
def shortest (x : Double) : Decimal :=
  let first := leadingExponent x.units
  ((List.range mostDigits).findSome? fun (more : Nat) => onGrid? x (first - more)).getD (exact x.units)

/-- A positive magnitude rounded to so many digits, a half going to the even last digit. -/
def rounded (precision units : Nat) : Decimal :=
  let exponent := leadingExponent units - (precision - 1 : Nat)
  let (num, den) := gridFraction units exponent
  ofScaled (Double.divRoundEven num den) exponent

def positional (d : Decimal) : String :=
  let places := d.point.toNat
  let whole := d.digits.take places ++ List.replicate (places - d.digits.length) '0'
  let part := List.replicate (-d.point).toNat '0' ++ d.digits.drop places
  let point := if part.isEmpty then [] else '.' :: part
  String.ofList ((if whole.isEmpty then ['0'] else whole) ++ point)

/-- Written as a number from one up to ten and a signed exponent of at least two digits. -/
def scientific (d : Decimal) : String :=
  let exponent := d.point - 1
  let sign := if exponent < 0 then "-" else "+"
  let power := toString exponent.natAbs
  let point := if d.digits.length ≤ 1 then [] else '.' :: d.digits.drop 1
  String.ofList (d.digits.take 1 ++ point) ++ "e" ++ sign ++
    (if power.length < 2 then "0" ++ power else power)

structure Notation where
  /-- The point stays in place up to so many digits before it. -/
  wholePlaces : Int
  /-- A number without fractional digits is still shown with one, a zero. -/
  fractionShown : Bool

/-- Positional down to 0.0001 and below ten to the number of whole places, and scientific otherwise. -/
def text (style : Notation) (d : Decimal) : String :=
  if -4 < d.point ∧ d.point ≤ style.wholePlaces then
    if style.fractionShown ∧ d.digits.length ≤ d.point.toNat then d.positional ++ ".0"
    else d.positional
  else d.scientific

end Decimal

namespace Double

def textWith (style : Decimal.Notation) (digits : Double → Decimal) (x : Double) : String :=
  if x.isNaN then "nan"
  else
    let magnitude :=
      if !x.isFinite then "inf"
      else if x.units == 0 then (if style.fractionShown then "0.0" else "0")
      else (digits x).text style
    if x.isNegative then "-" ++ magnitude else magnitude

/-- The full text: shortest digits, positional below 10^16, always with a point or an exponent. -/
def fullText (x : Double) : String :=
  x.textWith ⟨16, true⟩ fun x => Decimal.shortest (ofRank x.rank)

/-- The brief text: six digits, positional below 10^6, trailing zeros left out. -/
def briefText (x : Double) : String :=
  x.textWith ⟨6, false⟩ fun x => Decimal.rounded 6 x.units

end Double
end Kaleidoscope
