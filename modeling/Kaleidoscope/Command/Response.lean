import Kaleidoscope.Diagnostic.Basic

/-!
# Responses

What the program leaves behind: an exit code and what it wrote on the standard output and on the
standard error. A failure has a code and a line of its own kind.
-/

namespace Kaleidoscope

inductive ExitCode where
  | success
  /-- The source could not be read, or the tree not written. -/
  | sourceFault
  /-- The arguments, the configuration or a file are wrong. -/
  | usageFault
  | internalFault
  deriving DecidableEq, Repr

def ExitCode.number : ExitCode → UInt8
  | .success => 0
  | .sourceFault => 1
  | .usageFault => 2
  | .internalFault => 3

def linesText (lines : List String) : String := String.join (lines.map (· ++ "\n"))

structure Response where
  exit : ExitCode
  output : String
  errors : String
  deriving DecidableEq, Repr

inductive Failure where
  | diagnostic (d : Diagnostic)
  | configuration (message : String)
  | source (message : String)
  /-- A file is missing or closed to us. -/
  | file (message : String)
  | unforeseen (message : String)
  deriving DecidableEq, Repr

namespace Failure

def exit : Failure → ExitCode
  | .diagnostic _ | .source _ => .sourceFault
  | .configuration _ | .file _ => .usageFault
  | .unforeseen _ => .internalFault

def text : Failure → String
  | .diagnostic d => d.text
  | .configuration message => "Configuration error: " ++ message
  | .source message | .file message => "Error: " ++ message
  | .unforeseen message => "Internal error: " ++ message

end Failure
end Kaleidoscope
