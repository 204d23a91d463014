import Kaleidoscope.Tree.Dump
import Kaleidoscope.Tree.Spelling
import Kaleidoscope.Tree.Walk

/-!
# Nodes

A tree that stands by itself is an expression or an entity. Either can be dumped, spelt and walked.
-/

namespace Kaleidoscope

inductive Node where
  | expression (e : Expr)
  | entity (e : Entity)
  deriving DecidableEq, Repr

namespace Node

def dump : Node → String
  | .expression e => e.dump
  | .entity e => e.dump

def spelling : Node → Except Unspellable String
  | .expression e => e.spelling
  | .entity e => e.spelling

def walk (closed : NodeKind → Bool) : Node → List NodeKind
  | .expression e => e.walk closed
  | .entity e => e.walk closed

def programSpelling (nodes : List Node) : Except Unspellable String :=
  programOf <$> nodes.mapM spelling

end Node
end Kaleidoscope
