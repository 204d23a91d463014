import Kaleidoscope.Session.Basic

/-!
# Logs

The log of a session tells more than its report: what was read, every malformed number as it comes up,
and where reading went on after an error. Most of it is for debugging only.
-/

namespace Kaleidoscope

inductive LogLine where
  | debug (text : String)
  | warning (text : String)
  deriving DecidableEq, Repr

namespace LogLine

/-- A line as it is shown, if it is: lines for debugging appear in a verbose log only. -/
def shown? (verbose : Bool) : LogLine → Option String
  | .debug text => if verbose then some ("DEBUG: " ++ text) else none
  | .warning text => some (if verbose then "WARNING: " ++ text else text)

end LogLine

def EntityKind.noun : EntityKind → String
  | .definition => "definition"
  | .declaration => "extern"
  | .expression => "top_level_expr"

namespace Step

def parsedLine (step : Step) (entity : Entity) : LogLine :=
  .debug (step.first.location.text ++ ": parsed " ++ entity.kind.noun)

/-- The lines on the verdict; a refusal is logged where it arises and where it is recorded. -/
def verdictLines (step : Step) : List LogLine :=
  match step.verdict with
  | .finished | .separator => []
  | .accepted entity => [step.parsedLine entity]
  | .rejected entity diagnostic => [step.parsedLine entity, .debug diagnostic.remark]
  | .refused diagnostic => [.debug diagnostic.remark, .debug diagnostic.remark]

end Step

namespace Log

def remarks (tokens : List Token) : List LogLine :=
  (tokens.filterMap Token.remark?).map .debug

/-- The tokens that are complete when `token` is, and the others. -/
def splitAt (token : Token) (tokens : List Token) : List Token × List Token :=
  tokens.span (·.window.requests ≤ token.window.requests)

/-- The lines on steps, given the tokens that no step has come to yet. -/
def ofSteps (unseen : List Token) : List Step → List LogLine
  | [] => []
  | step :: steps =>
    let (read, unread) := splitAt step.last unseen
    let lines := remarks read ++ step.verdictLines
    match step.resumed? with
    | none => lines ++ ofSteps unread steps
    | some resumed =>
      let (dropped, left) := splitAt resumed unread
      lines ++ remarks dropped ++ .debug ("resynchronizing at " ++ resumed.listing) ::
        ofSteps left steps

def ofRun (tokens : List Token) (run : Run) : List LogLine :=
  let stop := "stopping after " ++ toString run.errors.length ++ " errors"
  ofSteps tokens run.steps ++ if run.stopped then [.warning stop] else []

end Log
end Kaleidoscope
