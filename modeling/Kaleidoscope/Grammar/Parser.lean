import Kaleidoscope.Grammar.Entity
import Kaleidoscope.Token.Scan

/-!
# Parsers

A parser goes through the tokens of a text. It looks at one token, the current one, but at none before
it is first asked to. Each phrase that is read moves it on; where reading gets stuck it stays at the
token that does not fit, which the diagnostic is about.

The call stack is taken to suffice for whatever the limit of nesting admits, and for operator chains of
any length. A stack that runs out would be reported as a nesting that is too deep.
-/

namespace Kaleidoscope

/-- How deep primaries may nest unless a limit is given. -/
def standardNesting : Int := 128

structure Parser where
  table : OperatorTable
  nesting : Int
  sequence : TokenSequence
  /-- Whether the first token has been looked at. -/
  started : Bool
  /-- The tokens from the current one on; none at the end of the input. -/
  ahead : List Token

inductive Outcome where
  | finished
  | separator
  | accepted (entity : Entity)
  | refused (diagnostic : Diagnostic)
  deriving DecidableEq, Repr

namespace Parser

def ofTokens (table : OperatorTable) (nesting : Int) (sequence : TokenSequence) : Parser :=
  ⟨table, nesting, sequence, false, sequence.tokens⟩

def ofText (table : OperatorTable) (nesting : Int) (file text : String) : Parser :=
  ofTokens table nesting (tokenize file text)

def current (p : Parser) : Token := p.ahead.headD p.sequence.final

def look (p : Parser) : Parser := { p with started := true }

/-- Moves on to the next token, which for a parser that has not started is the first one. -/
def advance (p : Parser) : Parser :=
  if p.started then { p with ahead := p.ahead.tail } else p.look

def levels (p : Parser) : Nat := p.nesting.toNat

def diagnose (p : Parser) (expected : Expectation) : Diagnostic :=
  ⟨expected.problem p.current.description p.nesting, some p.current.location, p.current.sourceLine?⟩

/-- Where a reading leaves a parser, and its value or the diagnostic. -/
def settle {α : Type} {n : Nat} (p : Parser) : Reading α n → Except Diagnostic α × Parser
  | .done value rest _ => (.ok value, { p with ahead := rest })
  | .stuck expected rest _ =>
    let p := { p with ahead := rest }
    (.error (p.diagnose expected), p)

def read {α : Type} (reader : Reader α) (p : Parser) : Except Diagnostic α × Parser :=
  p.look.settle (reader p.ahead)

/-- Reads a phrase from behind the current token on. -/
def readBehind {α : Type} (reader : Reader α) (p : Parser) : Except Diagnostic α × Parser :=
  read reader p.advance

def expression (p : Parser) : Except Diagnostic Expr × Parser :=
  p.read (Grammar.expression p.table p.levels)

def primary (p : Parser) : Except Diagnostic Expr × Parser :=
  p.read (Grammar.primary p.table p.levels)

/-- A primary that is not counted as a level of nesting. -/
def primaryForm (p : Parser) : Except Diagnostic Expr × Parser :=
  p.read (Grammar.primaryForm (Grammar.expression p.table p.levels))

/-- The links behind an operand whose operators bind at least as tightly as `least`. -/
def continuation (p : Parser) (least : Int) (operand : Expr) : Except Diagnostic Expr × Parser :=
  p.look.settle <|
    (Grammar.links p.table least (Grammar.primary p.table p.levels) [] p.ahead
      (Nat.lt_succ_self _)).map (Chain.tree operand)

/-- A group; whatever token is current counts as its opening parenthesis. -/
def group (p : Parser) : Except Diagnostic Expr × Parser :=
  p.readBehind (Grammar.group (Grammar.expression p.table p.levels))

def prototype (p : Parser) : Except Diagnostic Prototype × Parser := p.read Grammar.prototype

/-- A definition; whatever token is current counts as its keyword. -/
def definition (p : Parser) : Except Diagnostic Function × Parser :=
  p.look.readBehind (Grammar.definition p.table p.levels (some p.current.location))

/-- A declaration; whatever token is current counts as its keyword. -/
def declaration (p : Parser) : Except Diagnostic Prototype × Parser :=
  p.readBehind Grammar.prototype

def bareExpression (p : Parser) : Except Diagnostic Function × Parser :=
  p.read fun tokens => (Grammar.expression p.table p.levels tokens).map .anonymous

def precedence (p : Parser) : Int := p.table.precedence p.current.lexeme

/-- An attempt at an entity. The only nesting that is too deep is one beyond the limit: no attempt fails
for want of stack. -/
def nextEntity (p : Parser) : Outcome × Parser :=
  match p.ahead with
  | [] => (.finished, p.look)
  | token :: _ =>
    if token.isChar ';' then (.separator, p.look.advance)
    else
      match p.read (Grammar.entity p.table p.levels) with
      | (.ok entity, p) => (.accepted entity, p)
      | (.error diagnostic, p) => (.refused diagnostic, p)

/-- All that is read when a token is the current one: the tokens up to it. -/
def pulled (p : Parser) : List Token :=
  if p.started then
    TokenSequence.completeBy p.current.window.requests p.sequence.tokens
  else []

def warnings (p : Parser) : List String := p.pulled.filterMap Token.warning?

@[simp] theorem ahead_settle {α : Type} {n : Nat} (p : Parser) (r : Reading α n) :
    (p.settle r).2.ahead = r.rest := by
  cases r <;> rfl

@[simp] theorem started_settle {α : Type} {n : Nat} (p : Parser) (r : Reading α n) :
    (p.settle r).2.started = p.started := by
  cases r <;> rfl

theorem length_ahead_advance (p : Parser) (h : p.started = true) :
    p.advance.ahead.length = p.ahead.length - 1 := by
  simp [advance, h]

/-- An attempt gets on unless the input has ended or the current token does not fit; that one is left
to be dropped. -/
theorem nextEntity_progress (p : Parser) :
    p.nextEntity.2.started = true ∧
      match p.nextEntity.1 with
      | .finished => p.ahead = []
      | .refused _ => p.ahead ≠ [] ∧ p.nextEntity.2.ahead.length ≤ p.ahead.length
      | _ => p.nextEntity.2.ahead.length < p.ahead.length := by
  unfold nextEntity
  cases ahead : p.ahead with
  | nil => simp [look]
  | cons token rest =>
    by_cases semicolon : token.isChar ';' = true
    · simp [semicolon, advance, look, ahead]
    · simp only [semicolon, Bool.false_eq_true, if_false, read]
      cases result : Grammar.entity p.table p.levels p.ahead with
      | done value left shorter => simpa [settle, ahead, look] using shorter
      | stuck expected left within => simpa [settle, ahead, look] using within

end Parser

def parseExpression (table : OperatorTable) (file text : String) : Except Diagnostic Expr :=
  match (Parser.ofText table standardNesting file text).expression with
  | (.error diagnostic, _) => .error diagnostic
  | (.ok value, p) => if p.ahead.isEmpty then .ok value else .error (p.diagnose .endOfInput)

end Kaleidoscope
