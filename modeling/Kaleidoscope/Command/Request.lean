import Kaleidoscope.Command.Arguments
import Kaleidoscope.Command.Invocation
import Kaleidoscope.Text.Integer

/-!
# Requests

What the arguments of the program ask for: a command with the general options before it, the version,
help, or nothing that makes sense.
-/

namespace Kaleidoscope

inductive Request where
  | version
  | help
  | misuse
  | invoke (invocation : Invocation)

namespace Request

open Arguments

def generalShape : Shape where
  flags := ["--verbose", "--check-arity", "--version", "--help"]
  letters := [('v', "--verbose")]
  valued := ["--op", "--max-errors"]
  interspersed := false

def commandShape (flags : List String) : Shape where
  flags := "--help" :: flags
  letters := []
  valued := []
  interspersed := true

def commandNames : List String := ["parse", "tokens", "fmt", "repl"]

/-- The command of a name with its own arguments: none if they are wrong, and otherwise nothing if help
is asked for. -/
def command? (name : String) (args : List String) : Option (Option Command) := do
  let flags := if name = "parse" then ["--ast"] else []
  let parsed ← Arguments.parse? (commandShape flags) args
  if !(commandNames.contains name) then none
  else if parsed.has "--help" then some none
  else
    match name, parsed.positional with
    | "parse", [source] => some (some (.parse source (parsed.has "--ast")))
    | "tokens", [source] => some (some (.tokens source))
    | "fmt", [source] => some (some (.format source))
    | "repl", [] => some (some .converse)
    | _, _ => none

/-- The error limit given last: none if it is no positive integer. -/
def errorLimit? (values : List String) :
    Option { limit? : Option Nat // ∀ limit ∈ limit?, 0 < limit } :=
  match values.getLast? with
  | none => some ⟨none, by simp⟩
  | some text =>
    match Text.integer? text with
    | none => none
    | some limit =>
      if h : 0 < limit then some ⟨some limit.toNat, by simp; omega⟩ else none

/-- Of the flags for the version and for help, the first one wins over all else. -/
def ofArguments (args : List String) : Request :=
  match Arguments.parse? generalShape args with
  | none => .misuse
  | some parsed =>
    match parsed.options.find? fun option => option.1 == "--version" || option.1 == "--help" with
    | some (name, _) => if name == "--version" then .version else .help
    | none =>
      match errorLimit? (parsed.values "--max-errors"), parsed.positional with
      | some ⟨limit?, positive⟩, name :: rest =>
        match command? name rest with
        | none => .misuse
        | some none => .help
        | some (some command) =>
          .invoke ⟨parsed.has "--verbose", parsed.values "--op", parsed.has "--check-arity",
            limit?, positive, command⟩
      | _, _ => .misuse

end Request
end Kaleidoscope
