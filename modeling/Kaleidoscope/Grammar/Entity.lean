import Kaleidoscope.Grammar.Expression
import Kaleidoscope.Tree.Entity

/-!
# Reading entities

    definition  ::= 'def' prototype expression
    declaration ::= 'extern' prototype
    prototype   ::= name '(' name* ')'

Anything else is read as a bare expression.
-/

namespace Kaleidoscope.Grammar

def isIdentifier (token : Token) : Bool :=
  match token.lexeme with
  | .identifier _ => true
  | _ => false

def parameters : Reader (List String) := fun tokens =>
  ((expectChar ')' .closingOfParameters (tokens.dropWhile isIdentifier)).map fun _ =>
    (tokens.takeWhile isIdentifier).map (·.lexeme.text)).weaken
    (List.dropWhile_suffix _).length_le

def prototype : Reader Prototype
  | [] => .stuckAt .functionName []
  | token :: rest =>
    match token.lexeme with
    | .identifier name =>
      (((expectChar '(' .openingOfParameters rest).andThen fun _ => parameters).map fun params =>
        ⟨name, params, some token.location⟩).weaken (length_le_cons token rest)
    | _ => .stuckAt .functionName (token :: rest)

def definition (table : OperatorTable) (levels : Nat) (at? : Option Location) : Reader Function :=
  fun tokens =>
    (prototype tokens).andThen fun proto rest =>
      (expression table levels rest).map fun body => ⟨proto, body, at?⟩

/-- An entity; the first token says of which kind. -/
def entity (table : OperatorTable) (levels : Nat) : Reader Entity
  | [] => (expression table levels []).map fun body => .function (.anonymous body)
  | token :: rest =>
    match token.lexeme with
    | .defKeyword =>
      ((definition table levels (some token.location) rest).map .function).weaken (length_le_cons token rest)
    | .externKeyword => ((prototype rest).map .declaration).weaken (length_le_cons token rest)
    | _ => (expression table levels (token :: rest)).map fun body => .function (.anonymous body)

end Kaleidoscope.Grammar
