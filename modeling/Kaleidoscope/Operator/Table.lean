import Kaleidoscope.Operator.Association
import Kaleidoscope.Operator.Fault
import Kaleidoscope.Token.Scan

/-!
# Operator tables

An operator table gives precedences to characters; the higher binds tighter. It can only hold
characters that are tokens by themselves and that the grammar does not use otherwise. An entry with a
precedence that is not positive keeps its place but is no operator.
-/

namespace Kaleidoscope

/-- The characters that stand alone as tokens wherever a token starts with them. -/
def isLoneCharacter (c : Char) : Bool :=
  !(c.isAlphanum || isLayout c || c == '.' || c == '#')

/-- The characters that group, separate or end. -/
def isPunctuation (c : Char) : Bool := c == '(' || c == ')' || c == ',' || c == ';'

def isOperatorCharacter (c : Char) : Bool := isLoneCharacter c && !isPunctuation c

structure OperatorTable where
  entries : List (Char × Int)
  admissible : ∀ entry ∈ entries, isOperatorCharacter entry.1 = true
  distinct : (Association.keys entries).Nodup
  deriving DecidableEq, Repr

namespace OperatorTable

def empty : OperatorTable := ⟨[], by simp, by simp [Association.keys]⟩

def insert (table : OperatorTable) (op : Char) (precedence : Int)
    (h : isOperatorCharacter op = true) : OperatorTable where
  entries := Association.insert op precedence table.entries
  admissible entry member := by
    rcases Association.mem_insert member with rfl | old
    · exact h
    · exact table.admissible entry old
  distinct := Association.nodup_keys_insert op precedence table.distinct

def get? (table : OperatorTable) (op : Char) : Option Int := Association.find? op table.entries

/-- As `get?`, for any scalar: only a text of one character can be found. -/
def find? (table : OperatorTable) : Scalar → Option Int
  | .text value =>
    match value.toList with
    | [op] => table.get? op
    | _ => none
  | _ => none

def noPrecedence : Int := -1

/-- The precedence as an operator: an entry counts if its precedence is positive. -/
def binding (given : Option Int) : Int :=
  match given with
  | some precedence => if 0 < precedence then precedence else noPrecedence
  | none => noPrecedence

def precedence (table : OperatorTable) (lexeme : Lexeme) : Int :=
  binding (lexeme.char?.bind table.get?)

/-- An operator and a precedence of any kind, made an entry if they are of the right kind. -/
def accept (op precedence : Scalar) :
    Except ConfigurationFault { entry : Char × Int // isOperatorCharacter entry.1 = true } :=
  match op with
  | .text value =>
    match value.toList with
    | [c] =>
      if lone : isLoneCharacter c = true then
        if free : isPunctuation c = false then
          match precedence with
          | .integer n => .ok ⟨(c, n), by simp [isOperatorCharacter, lone, free]⟩
          | other => .error (.precedenceType c other)
        else .error (.reserved c)
      else .error (.neverAToken c)
    | _ => .error (.operatorLength op)
  | _ => .error (.operatorLength op)

/-- The table with an entry per operator. Of several precedences for one operator only the last one
counts, and the first entry at fault is reported. -/
def ofScalars (entries : List (Scalar × Scalar)) : Except ConfigurationFault OperatorTable :=
  (Association.insertAll [] entries).foldlM
    (fun table entry => do
      let admitted ← accept entry.1 entry.2
      return table.insert admitted.val.1 admitted.val.2 admitted.property)
    empty

def toScalars (table : OperatorTable) : List (Scalar × Scalar) :=
  table.entries.map fun entry => (.text entry.1.toString, .integer entry.2)

/-- The table with entries replaced or added; the whole is judged as if given at once. -/
def extend (table : OperatorTable) (more : List (Scalar × Scalar)) :
    Except ConfigurationFault OperatorTable :=
  ofScalars (table.toScalars ++ more)

def sameEntries (a b : OperatorTable) : Bool :=
  a.entries.length == b.entries.length && a.entries.all fun entry => b.get? entry.1 == some entry.2

def listing (table : OperatorTable) : String :=
  let item (entry : Char × Int) := Text.quoted entry.1.toString ++ ": " ++ toString entry.2
  "PrecedenceTable(\x7b" ++ ", ".intercalate (table.entries.map item) ++ "\x7d)"

def standard : OperatorTable :=
  (((empty.insert '<' 10 rfl).insert '+' 20 rfl).insert '-' 20 rfl).insert '*' 40 rfl

end OperatorTable
end Kaleidoscope
