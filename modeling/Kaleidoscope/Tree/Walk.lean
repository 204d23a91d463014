import Kaleidoscope.Tree.Entity

/-!
# Walks over trees

A walk goes through the nodes of a tree from the outside in and from left to right. It may be told not
to enter nodes of some kinds. The call stack is taken to suffice for the height of any tree.
-/

namespace Kaleidoscope

inductive NodeKind where
  | number
  | var
  | binary
  | call
  | prototype
  | function
  deriving DecidableEq, Repr

namespace Expr

def kind : Expr → NodeKind
  | .number .. => .number
  | .var .. => .var
  | .binary .. => .binary
  | .call .. => .call

mutual

/-- The kinds of the nodes that a walk reaches; nodes of a kind that is `closed` are not entered. -/
def walk (closed : NodeKind → Bool) : Expr → List NodeKind
  | .number .. => [.number]
  | .var .. => [.var]
  | .binary _ lhs rhs _ =>
    .binary :: if closed .binary then [] else lhs.walk closed ++ rhs.walk closed
  | .call _ args _ => .call :: if closed .call then [] else walkAll closed args

def walkAll (closed : NodeKind → Bool) : List Expr → List NodeKind
  | [] => []
  | e :: rest => e.walk closed ++ walkAll closed rest

end

structure CallSite where
  callee : String
  arguments : Nat
  at? : Option Location
  deriving DecidableEq, Repr

mutual

/-- The calls in an expression, outermost first and from left to right. -/
def calls : Expr → List CallSite
  | .number .. | .var .. => []
  | .binary _ lhs rhs _ => lhs.calls ++ rhs.calls
  | .call callee args at? => ⟨callee, args.length, at?⟩ :: callsAll args

def callsAll : List Expr → List CallSite
  | [] => []
  | e :: rest => e.calls ++ callsAll rest

end

end Expr

namespace Entity

def walk (closed : NodeKind → Bool) : Entity → List NodeKind
  | .declaration _ => [.prototype]
  | .function f =>
    .function :: if closed .function then [] else .prototype :: f.body.walk closed

end Entity
end Kaleidoscope
