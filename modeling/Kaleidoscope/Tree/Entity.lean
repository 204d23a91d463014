import Kaleidoscope.Tree.Expr

/-!
# Entities

A program is a sequence of entities: declarations of external functions, function definitions and
bare expressions. A bare expression is the body of a function without a name.
-/

namespace Kaleidoscope

structure Prototype where
  name : String
  params : List String
  at? : Option Location
  deriving DecidableEq, Repr, Inhabited

namespace Prototype

def isAnonymous (p : Prototype) : Bool := p.name = ""

def arity (p : Prototype) : Nat := p.params.length

def signature (p : Prototype) : String := p.name ++ "(" ++ " ".intercalate p.params ++ ")"

def bare (p : Prototype) : Prototype := { p with at? := none }

end Prototype

structure Function where
  proto : Prototype
  body : Expr
  at? : Option Location
  deriving DecidableEq, Repr, Inhabited

namespace Function

/-- A bare expression as a function without name and parameters, at the location of the expression. -/
def anonymous (body : Expr) : Function :=
  ⟨⟨"", [], body.location?⟩, body, body.location?⟩

def isAnonymous (f : Function) : Bool := f.proto.isAnonymous

def bare (f : Function) : Function := ⟨f.proto.bare, f.body.bare, none⟩

end Function

inductive Entity where
  | declaration (p : Prototype)
  | function (f : Function)
  deriving DecidableEq, Repr, Inhabited

inductive EntityKind where
  | definition
  | declaration
  | expression
  deriving DecidableEq, Repr

namespace Entity

def kind : Entity → EntityKind
  | .declaration _ => .declaration
  | .function f => if f.isAnonymous then .expression else .definition

def bare : Entity → Entity
  | .declaration p => .declaration p.bare
  | .function f => .function f.bare

def alike (a b : Entity) : Bool := a.bare = b.bare

def summary : Entity → String
  | .declaration p => "extern " ++ p.signature
  | .function f =>
    if f.isAnonymous then "top-level expression" else "def " ++ f.proto.signature

end Entity
end Kaleidoscope
