import Kaleidoscope.Diagnostic.Basic
import Kaleidoscope.Operator.Association
import Kaleidoscope.Tree.Walk

/-!
# Checks of calls

A call has to name a function that has been declared or defined before, and pass as many arguments as
its latest prototype has parameters. A definition may call itself. One that is rejected is not
remembered. The call stack is taken to suffice for a walk over any body.
-/

namespace Kaleidoscope

structure KnownFunctions where
  prototypes : List (String × Prototype)
  deriving DecidableEq, Repr

namespace KnownFunctions

def none : KnownFunctions := ⟨[]⟩

def find? (known : KnownFunctions) (name : String) : Option Prototype :=
  Association.find? name known.prototypes

/-- Remembers a prototype instead of any earlier one of its name; one without a name is not kept. -/
def declare (known : KnownFunctions) (proto : Prototype) : KnownFunctions :=
  if proto.isAnonymous then known
  else ⟨Association.insert proto.name proto known.prototypes⟩

def fault? (known : KnownFunctions) (call : Expr.CallSite) : Option Problem :=
  match known.find? call.callee with
  | .none => some (.unknownFunction call.callee)
  | some proto =>
    if proto.arity = call.arguments then .none
    else some (.argumentCount call.callee proto.arity call.arguments)

def firstFault? (known : KnownFunctions) (calls : List Expr.CallSite) : Option Diagnostic :=
  calls.findSome? fun call =>
    (known.fault? call).map fun problem => ⟨problem, call.at?, .none⟩

/-- Accepts an entity and remembers its prototype, or rejects it for its first call at fault. -/
def check (known : KnownFunctions) : Entity → Except Diagnostic KnownFunctions
  | .declaration proto => .ok (known.declare proto)
  | .function f =>
    let extended := known.declare f.proto
    match extended.firstFault? f.body.calls with
    | .none => .ok extended
    | some diagnostic => .error diagnostic

/-- Checks entities one after another: what is known at the end, and the result of each check. -/
def checkEach (known : KnownFunctions) : List Entity → KnownFunctions × List (Option Diagnostic)
  | [] => (known, [])
  | entity :: rest =>
    match known.check entity with
    | .ok known =>
      let (known, results) := known.checkEach rest
      (known, .none :: results)
    | .error diagnostic =>
      let (known, results) := known.checkEach rest
      (known, some diagnostic :: results)

def checkAll (known : KnownFunctions) (entities : List Entity) :
    KnownFunctions × List Diagnostic :=
  let (known, results) := known.checkEach entities
  (known, results.filterMap id)

end KnownFunctions
end Kaleidoscope
