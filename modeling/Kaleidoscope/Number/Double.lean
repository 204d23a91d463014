/-!
# Double precision numbers

A number is a 64-bit IEEE 754 datum. The data with sign bit zero that are not NaN are numbered by
their bits in increasing order, from zero through the subnormals to infinity, and every finite one is
a whole multiple of 2^-1074. Rounding is therefore done on natural numbers.
-/

namespace Kaleidoscope

def twoTo (n : Nat) : Nat := Nat.pow 2 n

def tenTo (n : Nat) : Nat := Nat.pow 10 n

/-- A double precision datum, given by its sign, exponent and fraction bits. -/
structure Double where
  bits : UInt64
  deriving DecidableEq, Repr, Inhabited

namespace Double

/-- How many data share a sign and an exponent: two to the width of the fraction. -/
def binade : Nat := twoTo 52

/-- The number of multiples of the least positive double, 2^-1074, in one. -/
def unitsPerOne : Nat := twoTo 1074

/-- The position of positive infinity among the data with sign bit zero. -/
def infinityRank : Nat := 2047 * binade

/-- The position of a datum among those of its sign. -/
def rank (x : Double) : Nat := x.bits.toNat % twoTo 63

def isNegative (x : Double) : Bool := twoTo 63 ≤ x.bits.toNat

def isFinite (x : Double) : Bool := x.rank < infinityRank

def isNaN (x : Double) : Bool := infinityRank < x.rank

/-- The datum with sign bit zero at a position. -/
def ofRank (n : Nat) : Double := ⟨UInt64.ofNat n⟩

/-- How often the spacing between neighbours has doubled, from 2^-1074 on, at a position. -/
def spacingAt (n : Nat) : Nat := n / binade - 1

/-- The magnitude of a finite datum as a multiple of 2^-1074. -/
def units (x : Double) : Nat :=
  (x.rank - spacingAt x.rank * binade) * twoTo (spacingAt x.rank)

/-- The quotient rounded to the nearest whole number, a half to the even one. -/
def divRoundEven (num den : Nat) : Nat :=
  let quotient := num / den
  let twice := 2 * (num % den)
  if den < twice || (twice == den && quotient % 2 == 1) then quotient + 1 else quotient

/-- The position of the double nearest to `num / den`, a tie going to the even significand. The
spacing is the one at the quotient, so a significand that rounds up to 2^53 lands on the first
position of the next binade; from the midpoint past the largest double on, it is infinity's. -/
def nearestRank (num den : Nat) : Nat :=
  let scaled := num * unitsPerOne
  let spacing := (scaled / den).log2 - 52
  min (spacing * binade + divRoundEven scaled (den * twoTo spacing)) infinityRank

def nearest (num den : Nat) : Double := ofRank (nearestRank num den)

end Double
end Kaleidoscope
