import Kaleidoscope.Number.Decimal
import Kaleidoscope.Text.DecimalDigit

/-!
# Number literals

A literal is a run of digits and points, of which the part before the second point counts. What it
denotes is rounded once to the nearest double. `Double.spelling?` writes a number back as a literal;
there is none for a negative number, as there is no sign, nor for what is not finite.
-/

namespace Kaleidoscope

/-- The part of a run that counts: digits, and one point with the digits after it. -/
structure Literal where
  whole : List Char
  fraction : List Char
  /-- What was left over, from the second point or the first other character on. -/
  ignored : List Char
  deriving Repr

namespace Literal

def ofText (text : List Char) : Literal :=
  let whole := text.takeWhile Text.isDecimalDigit
  match text.dropWhile Text.isDecimalDigit with
  | '.' :: rest =>
    ⟨whole, rest.takeWhile Text.isDecimalDigit, rest.dropWhile Text.isDecimalDigit⟩
  | rest => ⟨whole, [], rest⟩

def digits (literal : Literal) : List Char := literal.whole ++ literal.fraction

/-- A literal needs an ASCII digit to count as a number at all. -/
def isNumeric (literal : Literal) : Bool := literal.digits.any Char.isDigit

/-- Zero unless the literal is numeric, and then the double nearest to what it denotes. -/
def value (literal : Literal) : Double :=
  if literal.isNumeric then
    Double.nearest (Text.digitsValue literal.digits) (tenTo literal.fraction.length)
  else Double.ofRank 0

/-- Nothing was left over and there is a digit. -/
def isExact (literal : Literal) : Bool := literal.isNumeric && literal.ignored.isEmpty

end Literal

namespace Double

/-- The digits of a number as the language writes it; none if it has no literal. A whole number is
written without a point, all others with the fewest digits that read back. -/
def spelling? (x : Double) : Option String :=
  if x.isNegative || !x.isFinite then none
  else if x.units % unitsPerOne == 0 then some (toString (x.units / unitsPerOne))
  else some (Decimal.shortest x).positional

end Double
end Kaleidoscope
