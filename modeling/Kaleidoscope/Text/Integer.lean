import Kaleidoscope.Text.Blank
import Kaleidoscope.Text.DecimalDigit

/-!
# Integers in options

An integer is written with an optional sign and decimal digits of any script; a single underscore may
stand between two digits, and blanks around the whole are ignored. More than 4300 digits are refused.
-/

namespace Kaleidoscope.Text

/-- The most digits an integer may be written with, leading zeros included. -/
def maxIntegerDigits : Nat := 4300

/-- The blanks that may surround an integer: unlike `isBlank`, without the information separators. -/
def isBlankAroundInteger (c : Char) : Bool :=
  isBlank c && !(0x1C ≤ c.toNat && c.toNat ≤ 0x1F)

/-- The digits of a text whose underscores each stand between two digits, and that is not empty. -/
def ungroupedDigits? : List Char → Option (List Char)
  | [] => none
  | [c] => if isDecimalDigit c then some [c] else none
  | c :: '_' :: rest => if isDecimalDigit c then (ungroupedDigits? rest).map (c :: ·) else none
  | c :: rest => if isDecimalDigit c then (ungroupedDigits? rest).map (c :: ·) else none

def natural? (text : List Char) : Option Nat :=
  (ungroupedDigits? text).bind fun digits =>
    if digits.length ≤ maxIntegerDigits then some (digitsValue digits) else none

def integer? (text : String) : Option Int :=
  match trimBoth isBlankAroundInteger text.toList with
  | '+' :: digits => (natural? digits).map Int.ofNat
  | '-' :: digits => (natural? digits).map fun n => -Int.ofNat n
  | digits => (natural? digits).map Int.ofNat

end Kaleidoscope.Text
