import Kaleidoscope.Grammar.Chain
import Kaleidoscope.Grammar.Reading
import Kaleidoscope.Operator.Table

/-!
# Reading expressions

    expression ::= primary (operator primary)*
    primary    ::= number | name | name '(' (expression (',' expression)*)? ')' | '(' expression ')'

Every primary stands on a level of nesting, and what stands in its parentheses one level deeper. The
levels that are left bound the recursion: where none is left, no primary can start.
-/

namespace Kaleidoscope.Grammar

/-- The links of a chain, after those already found. A link starts with any token that binds at least
as tightly as `least`, so it takes a `least` above -1 for a link to need an operator. -/
def links (table : OperatorTable) (least : Int) (operand : Reader Expr) (found : List Link)
    (tokens : List Token) {n : Nat} (h : tokens.length < n) : Reading (List Link) n :=
  match tokens with
  | [] =>
    if table.precedence .endOfInput < least then .done found.reverse [] h
    else
      match operand [] with
      | .stuck expected rest within => .stuck expected rest (Nat.le_trans within (Nat.zero_le n))
      | .done _ _ shorter => absurd shorter (Nat.not_lt_zero _)
  | op :: behind =>
    let precedence := table.precedence op.lexeme
    if precedence < least then .done found.reverse (op :: behind) h
    else
      match operand behind with
      | .stuck expected rest within =>
        .stuck expected rest (Nat.le_trans within (Nat.le_of_lt (Nat.lt_of_succ_lt h)))
      | .done value rest shorter =>
        links table least operand (⟨op, precedence, value⟩ :: found) rest
          (Nat.lt_trans shorter (Nat.lt_of_succ_lt h))
termination_by tokens.length
decreasing_by exact Nat.lt_succ_of_lt shorter

/-- A chain of operands that goes on as long as operators follow. -/
def chain (table : OperatorTable) (operand : Reader Expr) : Reader Expr := fun tokens =>
  match operand tokens with
  | .stuck expected rest within => .stuck expected rest within
  | .done first rest shorter => (links table 0 operand [] rest shorter).map (Chain.tree first)

def group (expression : Reader Expr) : Reader Expr := fun tokens =>
  (expression tokens).andThen fun value rest =>
    (expectChar ')' .closingParenthesis rest).map fun _ => value

/-- The arguments of a call, after those already found: at least one more, and the closing
parenthesis. The end of the input, where no argument can start, is reported as its lack. -/
def arguments (expression : Reader Expr) (found : List Expr) (tokens : List Token) :
    Reading (List Expr) tokens.length :=
  match tokens with
  | [] => .stuckAt .closingParenthesisOrComma []
  | first :: others =>
    match expression (first :: others) with
    | .stuck expected rest within => .stuck expected rest within
    | .done value rest shorter =>
      match rest with
      | [] => .stuck .closingParenthesisOrComma [] (Nat.zero_le _)
      | next :: behind =>
        if next.isChar ')' then
          .done (value :: found).reverse behind (Nat.lt_of_succ_lt shorter)
        else if next.isChar ',' then
          (arguments expression (value :: found) behind).weaken
            (Nat.le_of_lt (Nat.lt_of_succ_lt shorter))
        else .stuck .closingParenthesisOrComma (next :: behind) (Nat.le_of_lt shorter)
termination_by tokens.length
decreasing_by exact Nat.lt_of_succ_lt shorter

def callArguments (expression : Reader Expr) : Reader (List Expr)
  | [] => arguments expression [] []
  | next :: behind =>
    if next.isChar ')' then .done [] behind (length_lt_cons next behind)
    else arguments expression [] (next :: behind)

/-- What stands behind a name: arguments make it a call, and without them it is a variable. -/
def afterName (expression : Reader Expr) (name : String) (at? : Option Location)
    (tokens : List Token) : Reading Expr (tokens.length + 1) :=
  match tokens with
  | [] => .done (.var name at?) [] (Nat.lt_succ_self _)
  | next :: behind =>
    if next.isChar '(' then
      ((callArguments expression behind).map fun args => .call name args at?).weaken
        (Nat.le_succ_of_le (Nat.le_succ _))
    else .done (.var name at?) (next :: behind) (Nat.lt_succ_self _)

/-- A primary whose parts in parentheses are read by `expression`. -/
def primaryForm (expression : Reader Expr) : Reader Expr
  | [] => .stuckAt .expression []
  | token :: rest =>
    match token.lexeme with
    | .identifier name => afterName expression name (some token.location) rest
    | .number value => .done (.number value (some token.location)) rest (length_lt_cons token rest)
    | .character '(' => (group expression rest).weaken (length_le_cons token rest)
    | _ => .stuckAt .expression (token :: rest)

/-- A primary with so many levels left, its own among them. -/
def primary (table : OperatorTable) : (levels : Nat) → Reader Expr
  | 0 => fun tokens => .stuckAt .shallowerNesting tokens
  | levels + 1 => fun tokens => primaryForm (chain table (primary table levels)) tokens

def expression (table : OperatorTable) (levels : Nat) : Reader Expr :=
  chain table (primary table levels)

end Kaleidoscope.Grammar
