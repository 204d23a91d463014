import Kaleidoscope.Session.Options

/-!
# Invocations

A command with the general options given before it, and the options that it runs under: those of the
environment with what the invocation gives laid over them.
-/

namespace Kaleidoscope

inductive Command where
  | parse (source : String) (dump : Bool)
  | tokens (source : String)
  | format (source : String)
  | converse
  deriving DecidableEq, Repr

/-- The source named as the standard input. -/
def standardInput : String := "-"

def Command.source : Command → String
  | .parse source _ | .tokens source | .format source => source
  | .converse => standardInput

structure Invocation where
  verbose : Bool
  operators : List String
  checkCalls : Bool
  errorLimit? : Option Nat
  errorLimit_pos : ∀ limit ∈ errorLimit?, 0 < limit
  command : Command

namespace Invocation

/-- The options of a command: those of the environment, with the operator lists over its table and the
other options of the command line in the place of its own. -/
def options (invocation : Invocation) (environment : String → Option String) :
    Except ConfigurationFault Options := do
  let options ← Options.ofEnvironment environment {}
  let table ←
    if invocation.operators.isEmpty then pure options.table
    else do
      let lists ← invocation.operators.mapM OperatorSpec.read
      options.table.extend (OperatorSpec.toScalars lists.flatten)
  return { options with
    table := table
    checkCalls := invocation.checkCalls || options.checkCalls
    errorLimit := invocation.errorLimit?.getD options.errorLimit
    errorLimit_pos := by
      cases h : invocation.errorLimit? with
      | none => exact options.errorLimit_pos
      | some limit => exact invocation.errorLimit_pos limit h }

end Invocation
end Kaleidoscope
