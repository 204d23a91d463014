import Kaleidoscope.Operator.Scalar

/-!
# Configuration faults

What can be wrong with the operators and options that a user gives.
-/

namespace Kaleidoscope

inductive ConfigurationFault where
  | operatorLength (op : Scalar)
  /-- No token consists of this character, so it cannot be an operator. -/
  | neverAToken (op : Char)
  /-- The grammar uses this character otherwise. -/
  | reserved (op : Char)
  | precedenceType (op : Char) (precedence : Scalar)
  /-- An item of an operator list has no colon, or nothing before its last one. -/
  | itemForm (item : String)
  /-- What stands after the last colon of an item is not an integer. -/
  | itemPrecedence (op value : String)
  | errorLimit (limit : Int)
  | errorLimitText (text : String)
  deriving DecidableEq, Repr

def ConfigurationFault.message : ConfigurationFault → String
  | .operatorLength op => "operator must be a single character, got " ++ op.shown
  | .neverAToken op =>
    "'" ++ op.toString ++ "' cannot be an operator: the lexer never emits it as a character token"
  | .reserved op =>
    "'" ++ op.toString ++ "' is reserved punctuation and cannot be an operator"
  | .precedenceType op precedence =>
    "precedence for '" ++ op.toString ++ "' must be an integer, got " ++ precedence.shown
  | .itemForm item => "expected OP:PREC, got '" ++ item ++ "'"
  | .itemPrecedence op value =>
    "precedence for '" ++ op ++ "' must be an integer, got '" ++ value ++ "'"
  | .errorLimit limit => "max_errors must be at least 1, got " ++ toString limit
  | .errorLimitText text => "KALEIDO_MAX_ERRORS must be an integer, got '" ++ text ++ "'"

end Kaleidoscope
