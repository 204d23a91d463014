import Kaleidoscope.Operator.Table
import Kaleidoscope.Text.Integer

/-!
# Operator lists

An operator list is a text such as `<:10,+:20`, with commas between items. In each item the last colon
stands between the operator and its precedence. Blanks around an item and empty items are ignored.
-/

namespace Kaleidoscope.OperatorSpec

def fields (separator : Char) : List Char → List (List Char)
  | [] => [[]]
  | c :: rest =>
    if c = separator then [] :: fields separator rest
    else
      match fields separator rest with
      | [] => [[c]]
      | first :: more => (c :: first) :: more

def splitLast? (separator : Char) (text : List Char) : Option (List Char × List Char) :=
  let reversed := text.reverse
  match reversed.dropWhile (· != separator) with
  | [] => none
  | _ :: front => some (front.reverse, (reversed.takeWhile (· != separator)).reverse)

/-- An item without surrounding blanks, as an operator and its precedence. -/
def item (text : List Char) : Except ConfigurationFault (String × Int) :=
  match splitLast? ':' text with
  | none | some ([], _) => .error (.itemForm (String.ofList text))
  | some (op, value) =>
    match Text.integer? (String.ofList value) with
    | some precedence => .ok (String.ofList op, precedence)
    | none => .error (.itemPrecedence (String.ofList op) (String.ofList value))

def items (text : String) : List (List Char) :=
  ((fields ',' text.toList).map (Text.trimBoth Text.isBlank)).filter (!·.isEmpty)

/-- The operators of a list in order of first mention, each with the last precedence given to it. -/
def read (text : String) : Except ConfigurationFault (List (String × Int)) := do
  let entries ← (items text).mapM item
  return Association.insertAll [] entries

def toScalars (entries : List (String × Int)) : List (Scalar × Scalar) :=
  entries.map fun entry => (.text entry.1, .integer entry.2)

def write (table : OperatorTable) : String :=
  ",".intercalate (table.entries.map fun entry => entry.1.toString ++ ":" ++ toString entry.2)

end Kaleidoscope.OperatorSpec
