import Kaleidoscope.Number.Literal
import Kaleidoscope.Tree.Entity

/-!
# Canonical source text

The canonical text of a tree reads back as the same tree whatever the precedences are, because each
binary operation stands in parentheses. In a program each entity ends in a semicolon and a line feed,
so that no entity can run on into the next. Only a number without a literal stands in the way. The
call stack is taken to suffice for the height of any tree.
-/

namespace Kaleidoscope

structure Unspellable where
  value : Double
  deriving DecidableEq, Repr

def Unspellable.message (fault : Unspellable) : String :=
  "number " ++ fault.value.fullText ++ " has no source spelling"

def Double.spelling (x : Double) : Except Unspellable String :=
  match x.spelling? with
  | some text => .ok text
  | none => .error ⟨x⟩

namespace Expr

mutual

def spelling : Expr → Except Unspellable String
  | .number value _ => value.spelling
  | .var name _ => .ok name
  | .binary op lhs rhs _ => do
    let left ← lhs.spelling
    let right ← rhs.spelling
    return "(" ++ left ++ " " ++ op ++ " " ++ right ++ ")"
  | .call callee args _ => do
    let texts ← spellingAll args
    return callee ++ "(" ++ ", ".intercalate texts ++ ")"

def spellingAll : List Expr → Except Unspellable (List String)
  | [] => .ok []
  | e :: rest => do
    let text ← e.spelling
    let texts ← spellingAll rest
    return text :: texts

end

end Expr

namespace Entity

def spelling : Entity → Except Unspellable String
  | .declaration p => .ok ("extern " ++ p.signature)
  | .function f => do
    let body ← f.body.spelling
    return if f.isAnonymous then body else "def " ++ f.proto.signature ++ " " ++ body

end Entity

/-- The lines of a program, each a text and its terminator. -/
def programOf (texts : List String) : String :=
  String.join (texts.map (· ++ ";\n"))

/-- The canonical text of a program, or the first number that has no literal. -/
def programSpelling (entities : List Entity) : Except Unspellable String :=
  programOf <$> entities.mapM Entity.spelling

end Kaleidoscope
