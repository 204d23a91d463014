import Kaleidoscope.Diagnostic.Basic
import Kaleidoscope.Token.Basic

/-!
# Readings

A phrase is read from the front of a list of tokens. A `Reading` is its value with the tokens behind
it, or what was expected at the token where reading got stuck. Either carries the bound on the tokens
left that makes reading end.
-/

namespace Kaleidoscope

/-- What the grammar demands at a token that does not fit. -/
inductive Expectation where
  | expression
  | closingParenthesis
  | closingParenthesisOrComma
  | functionName
  | openingOfParameters
  | closingOfParameters
  | shallowerNesting
  | endOfInput
  deriving DecidableEq, Repr

def Expectation.problem (found : String) (limit : Int) : Expectation → Problem
  | .expression =>
    .unexpectedToken "unknown token when expecting an expression" found (some "expression")
  | .closingParenthesis => .missingToken "expected ')'" "')'" found
  | .closingParenthesisOrComma =>
    .missingToken "Expected ')' or ',' in argument list" "')' or ','" found
  | .functionName =>
    .unexpectedToken "Expected function name in prototype" found (some "function name")
  | .openingOfParameters => .missingToken "Expected '(' in prototype" "'('" found
  | .closingOfParameters => .missingToken "Expected ')' in prototype" "')'" found
  | .shallowerNesting => .nestingTooDeep "expression nested too deeply" found limit
  | .endOfInput =>
    .unexpectedToken "unexpected input after expression" found (some "end of input")

/-- A value read with fewer than `n` tokens left, or a token among the last `n` that does not fit. -/
inductive Reading (α : Type) (n : Nat) where
  | done (value : α) (rest : List Token) (shorter : rest.length < n)
  | stuck (expected : Expectation) (rest : List Token) (within : rest.length ≤ n)

theorem length_lt_cons (token : Token) (rest : List Token) :
    rest.length < (token :: rest).length := Nat.lt_succ_self _

theorem length_le_cons (token : Token) (rest : List Token) :
    rest.length ≤ (token :: rest).length := Nat.le_succ _

abbrev Reader (α : Type) := (tokens : List Token) → Reading α tokens.length

namespace Reading

variable {α β : Type} {m n : Nat}

def stuckAt (expected : Expectation) (tokens : List Token) : Reading α tokens.length :=
  .stuck expected tokens (Nat.le_refl _)

def weaken (h : m ≤ n) : Reading α m → Reading α n
  | .done value rest shorter => .done value rest (Nat.lt_of_lt_of_le shorter h)
  | .stuck expected rest within => .stuck expected rest (Nat.le_trans within h)

def map (f : α → β) : Reading α n → Reading β n
  | .done value rest shorter => .done (f value) rest shorter
  | .stuck expected rest within => .stuck expected rest within

def andThen : Reading α n → ((value : α) → Reader β) → Reading β n
  | .done value rest shorter, next => (next value rest).weaken (Nat.le_of_lt shorter)
  | .stuck expected rest within, _ => .stuck expected rest within

def rest : Reading α n → List Token
  | .done _ rest _ | .stuck _ rest _ => rest

end Reading

/-- Reads one character token; if another token stands there, this is what was expected. -/
def expectChar (c : Char) (expected : Expectation) : Reader Unit
  | [] => .stuckAt expected []
  | token :: rest =>
    if token.isChar c then .done () rest (length_lt_cons token rest)
    else .stuckAt expected (token :: rest)

end Kaleidoscope
