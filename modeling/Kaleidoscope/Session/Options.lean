import Kaleidoscope.Operator.Spec

/-!
# Options

The options of a session: the operators, whether calls are checked, how many errors end the session,
and the prompt of the interactive mode. They come from the environment and from settings given
directly, which win.
-/

namespace Kaleidoscope

structure Options where
  table : OperatorTable
  checkCalls : Bool
  errorLimit : Nat
  errorLimit_pos : 0 < errorLimit
  prompt : String
  deriving DecidableEq, Repr

/-- The settings given directly; what is not given keeps its value. -/
structure Settings where
  /-- The entries of an operator table; given but absent, they stand for the standard table. -/
  table? : Option (Option (List (Scalar × Scalar))) := none
  checkCalls? : Option Bool := none
  errorLimit? : Option Int := none
  prompt? : Option String := none

namespace Options

def standard : Options := ⟨.standard, false, 100, by decide, "ready> "⟩

def withErrorLimit (options : Options) (limit : Int) : Except ConfigurationFault Options :=
  if h : 1 ≤ limit then
    .ok { options with errorLimit := limit.toNat, errorLimit_pos := by omega }
  else .error (.errorLimit limit)

def environmentVariables : List String := ["KALEIDO_PRECEDENCE", "KALEIDO_CHECK_ARITY", "KALEIDO_MAX_ERRORS"]

def isAffirmative (text : String) : Bool :=
  ["1", "true", "yes", "on"].contains (Text.trim text).toLower

/-- The table of the environment: its operators over the standard ones. -/
def environmentTable (environment : String → Option String) :
    Except ConfigurationFault OperatorTable :=
  match environment "KALEIDO_PRECEDENCE" with
  | none | some "" => .ok .standard
  | some text => do
    let entries ← OperatorSpec.read text
    OperatorTable.standard.extend (OperatorSpec.toScalars entries)

def environmentLimit? (environment : String → Option String) :
    Except ConfigurationFault (Option Int) :=
  match environment "KALEIDO_MAX_ERRORS" with
  | none | some "" => .ok none
  | some text =>
    match Text.integer? text with
    | some limit => .ok (some limit)
    | none => .error (.errorLimitText text)

/-- The options that settings change: first the table and then the error limit is judged. -/
def ofSettings (options : Options) (settings : Settings) : Except ConfigurationFault Options := do
  let table ←
    match settings.table? with
    | none => pure options.table
    | some none => pure .standard
    | some (some entries) => OperatorTable.ofScalars entries
  let options :=
    { options with
      table := table
      checkCalls := settings.checkCalls?.getD options.checkCalls
      prompt := settings.prompt?.getD options.prompt }
  match settings.errorLimit? with
  | none => pure options
  | some limit => options.withErrorLimit limit

/-- The options of an environment under settings given directly. Each variable has to be readable even
where a setting wins over it, and only the error limit that counts has to be positive. -/
def ofEnvironment (environment : String → Option String) (settings : Settings) :
    Except ConfigurationFault Options := do
  let table ← environmentTable environment
  let checkCalls := (environment "KALEIDO_CHECK_ARITY").map isAffirmative
  let limit? ← environmentLimit? environment
  ofSettings { standard with table := table }
    { settings with
      checkCalls? := settings.checkCalls?.or checkCalls
      errorLimit? := settings.errorLimit?.or limit? }

end Options
end Kaleidoscope
