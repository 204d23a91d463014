import Kaleidoscope.Diagnostic.Basic

/-!
# Findings

The diagnostics and warnings on a source in the order in which they were found, and their report.
-/

namespace Kaleidoscope

structure Findings where
  errors : List Diagnostic
  warnings : List String
  deriving DecidableEq, Repr

namespace Findings

def none : Findings := ⟨[], []⟩

def addError (findings : Findings) (error : Diagnostic) : Findings :=
  { findings with errors := findings.errors ++ [error] }

def addWarning (findings : Findings) (warning : String) : Findings :=
  { findings with warnings := findings.warnings ++ [warning] }

/-- As many errors were found as are wanted at most. -/
def reaches (findings : Findings) (limit : Int) : Bool := limit ≤ findings.errors.length

def counted (count : Nat) (noun : String) : String :=
  toString count ++ " " ++ noun ++ if count = 1 then "" else "s"

/-- The errors, each with an empty line after it, the warnings, and a count of both. -/
def report (findings : Findings) : String :=
  let errors := findings.errors.flatMap fun error => [error.text, ""]
  let count := "\n" ++ counted findings.errors.length "error" ++ ", " ++
    counted findings.warnings.length "warning"
  "\n".intercalate (errors ++ findings.warnings ++ [count])

end Findings
end Kaleidoscope
