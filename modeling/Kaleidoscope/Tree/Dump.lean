import Kaleidoscope.Number.Decimal
import Kaleidoscope.Tree.Entity

/-!
# Dumps of trees

A dump shows a tree on indented lines, a line for each node of an expression and one for the entity
around it. The parts of a node stand one level below it. The call stack is taken to suffice for the
height of any tree.
-/

namespace Kaleidoscope

structure DumpLine where
  level : Nat
  label : String
  deriving DecidableEq, Repr

namespace DumpLine

def text (line : DumpLine) : String :=
  String.ofList (List.replicate (2 * line.level) ' ') ++ line.label

def textAll (lines : List DumpLine) : String := "\n".intercalate (lines.map text)

end DumpLine

namespace Expr

def label : Expr → String
  | .number value _ => "Number: " ++ value.briefText
  | .var name _ => "Variable: " ++ name
  | .binary op _ _ _ => "BinaryOp: " ++ op
  | .call callee args _ => "Call: " ++ callee ++ " (" ++ toString args.length ++ " args)"

mutual

def dumpAt (level : Nat) : Expr → List DumpLine
  | .number value at? => [⟨level, (Expr.number value at?).label⟩]
  | .var name at? => [⟨level, (Expr.var name at?).label⟩]
  | .binary op lhs rhs at? =>
    ⟨level, (Expr.binary op lhs rhs at?).label⟩ ::
      (lhs.dumpAt (level + 1) ++ rhs.dumpAt (level + 1))
  | .call callee args at? =>
    ⟨level, (Expr.call callee args at?).label⟩ :: dumpAllAt (level + 1) args

def dumpAllAt (level : Nat) : List Expr → List DumpLine
  | [] => []
  | e :: rest => e.dumpAt level ++ dumpAllAt level rest

end

def dump (e : Expr) : String := DumpLine.textAll (e.dumpAt 0)

end Expr

namespace Entity

def dumpLines : Entity → List DumpLine
  | .declaration p => [⟨0, "Extern: " ++ p.signature⟩]
  | .function f =>
    ⟨0, if f.isAnonymous then "TopLevelExpr" else "Function: " ++ f.proto.signature⟩ ::
      f.body.dumpAt 1

def dump (entity : Entity) : String := DumpLine.textAll entity.dumpLines

end Entity
end Kaleidoscope
