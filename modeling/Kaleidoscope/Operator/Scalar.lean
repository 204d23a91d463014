import Kaleidoscope.Number.Decimal
import Kaleidoscope.Text.Quoted

/-!
# Scalars

A configuration may give any scalar where an operator or a precedence belongs; what is not one is
refused with the scalar shown.
-/

namespace Kaleidoscope

inductive Scalar where
  | absent
  | truth (value : Bool)
  | integer (value : Int)
  | number (value : Double)
  | text (value : String)
  deriving DecidableEq, Repr

def Scalar.shown : Scalar → String
  | .absent => "None"
  | .truth true => "True"
  | .truth false => "False"
  | .integer value => toString value
  | .number value => value.fullText
  | .text value => Text.quoted value

end Kaleidoscope
