import Kaleidoscope.Number.Double
import Kaleidoscope.Source.Location

/-!
# Expressions

An expression is a number, a variable, a binary operation or a call. Parentheses leave no trace but
the shape of the tree. A location is kept for messages and is no part of what an expression says:
`Expr.bare` forgets all of them.
-/

namespace Kaleidoscope

inductive Expr where
  | number (value : Double) (at? : Option Location)
  | var (name : String) (at? : Option Location)
  | binary (op : String) (lhs rhs : Expr) (at? : Option Location)
  | call (callee : String) (args : List Expr) (at? : Option Location)
  deriving Repr, Inhabited

namespace Expr

def location? : Expr → Option Location
  | .number _ at? | .var _ at? | .binary _ _ _ at? | .call _ _ at? => at?

mutual

def decEq : (a b : Expr) → Decidable (a = b)
  | .number v l, .number w m => decidable_of_iff (v = w ∧ l = m) (by simp)
  | .var x l, .var y m => decidable_of_iff (x = y ∧ l = m) (by simp)
  | .binary o a b l, .binary p c d m =>
    match a.decEq c, b.decEq d with
    | .isTrue h, .isTrue k => decidable_of_iff (o = p ∧ l = m) (by simp [h, k])
    | .isFalse h, _ => .isFalse (by simp [h])
    | _, .isFalse h => .isFalse (by simp [h])
  | .call f xs l, .call g ys m =>
    match decEqAll xs ys with
    | .isTrue h => decidable_of_iff (f = g ∧ l = m) (by simp [h])
    | .isFalse h => .isFalse (by simp [h])
  | .number .., .var .. | .number .., .binary .. | .number .., .call ..
  | .var .., .number .. | .var .., .binary .. | .var .., .call ..
  | .binary .., .number .. | .binary .., .var .. | .binary .., .call ..
  | .call .., .number .. | .call .., .var .. | .call .., .binary .. => .isFalse (by simp)

def decEqAll : (a b : List Expr) → Decidable (a = b)
  | [], [] => .isTrue rfl
  | x :: xs, y :: ys =>
    match x.decEq y, decEqAll xs ys with
    | .isTrue h, .isTrue k => .isTrue (by simp [h, k])
    | .isFalse h, _ => .isFalse (by simp [h])
    | _, .isFalse h => .isFalse (by simp [h])
  | [], _ :: _ | _ :: _, [] => .isFalse (by simp)

end

instance : DecidableEq Expr := decEq

mutual

def bare : Expr → Expr
  | .number value _ => .number value none
  | .var name _ => .var name none
  | .binary op lhs rhs _ => .binary op lhs.bare rhs.bare none
  | .call callee args _ => .call callee (bareAll args) none

def bareAll : List Expr → List Expr
  | [] => []
  | e :: rest => e.bare :: bareAll rest

end

theorem bareAll_eq_map (args : List Expr) : bareAll args = args.map bare := by
  induction args <;> simp_all [bareAll]

def alike (a b : Expr) : Bool := a.bare = b.bare

end Expr
end Kaleidoscope
