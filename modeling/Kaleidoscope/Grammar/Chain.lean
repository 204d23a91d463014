import Kaleidoscope.Token.Basic
import Kaleidoscope.Tree.Expr

/-!
# Operator chains

A chain is an operand followed by links, each an operator and the operand behind it. Its tree has the
tighter operators deeper and groups equally tight ones from the left. It is built from left to right:
operators wait for their right operand until one comes that is no tighter.
-/

namespace Kaleidoscope

structure Link where
  op : Token
  precedence : Int
  operand : Expr

/-- An operator whose left operand is complete and whose right one may still grow. -/
structure Waiting where
  lhs : Expr
  op : Token
  precedence : Int

namespace Chain

def join (lhs : Expr) (op : Token) (rhs : Expr) : Expr :=
  .binary op.lexeme.text lhs rhs (some op.location)

/-- Gives the operand to the waiting operators that are at least as tight, the innermost first. -/
def reduce (precedence : Int) (operand : Expr) : List Waiting → Expr × List Waiting
  | [] => (operand, [])
  | w :: waiting =>
    if w.precedence < precedence then (operand, w :: waiting)
    else reduce precedence (join w.lhs w.op operand) waiting

/-- The tree of the waiting operators, the innermost first, with the last operand and more links. -/
def build (waiting : List Waiting) (operand : Expr) : List Link → Expr
  | [] => waiting.foldl (fun rhs w => join w.lhs w.op rhs) operand
  | link :: links =>
    let (lhs, outer) := reduce link.precedence operand waiting
    build (⟨lhs, link.op, link.precedence⟩ :: outer) link.operand links

def tree (operand : Expr) (links : List Link) : Expr := build [] operand links

end Chain
end Kaleidoscope
