import Kaleidoscope.Session.Basic

/-!
# Transcripts

What a session writes while it runs. In the interactive mode each attempt starts with the prompt, an
error is told by its bare message, and the run ends with an empty line; accepted entities may be
announced in either mode.
-/

namespace Kaleidoscope

structure Voice where
  interactive : Bool
  announces : Bool
  deriving DecidableEq, Repr

def EntityKind.announcement : EntityKind → String
  | .definition => "Parsed a function definition."
  | .declaration => "Parsed an extern"
  | .expression => "Parsed a top-level expr"

def Verdict.told (voice : Voice) : Verdict → String
  | .finished | .separator => ""
  | .accepted entity => if voice.announces then entity.kind.announcement ++ "\n" else ""
  | .rejected _ diagnostic | .refused diagnostic =>
    if voice.interactive then "Error: " ++ diagnostic.message ++ "\n" else ""

def Step.told (voice : Voice) (prompt : String) (step : Step) : String :=
  (if voice.interactive then prompt else "") ++ step.verdict.told voice

def Run.told (voice : Voice) (prompt : String) (run : Run) : String :=
  String.join (run.steps.map (Step.told voice prompt)) ++ if voice.interactive then "\n" else ""

/-- Whether the end of the text had been seen when a step was over. -/
def Step.sawEnd (step : Step) : Bool :=
  step.last.window.atEnd || step.resumed?.any (·.window.atEnd)

/-- The steps that would be the same if more text followed. -/
def Run.settled (run : Run) : List Step := run.steps.takeWhile (!·.sawEnd)

/-- Whether the run would have stopped at the same step if more text followed. -/
def Run.stoppedForGood (run : Run) : Bool := run.stopped && run.steps.all (!·.sawEnd)

/-- The part of a step that is over when reading fails at the end of the text. -/
def Step.begun (step : Step) : Step :=
  if step.last.window.atEnd then { step with verdict := .separator, resumed? := none }
  else { step with resumed? := none }

/-- The steps of a run that are over, and the part of the next that is, when reading fails at the end of
the text. -/
def Run.begun (run : Run) : List Step :=
  run.settled ++ ((run.steps.drop run.settled.length).take 1).map Step.begun

/-- What would be told by now if more text followed: the settled steps and the prompt of the next. -/
def Run.toldSoFar (voice : Voice) (prompt : String) (run : Run) : String :=
  String.join (run.settled.map (Step.told voice prompt)) ++
    if voice.interactive && !run.stoppedForGood then prompt else ""

/-- An interactive session on a text: the report and the transcript. -/
def converse (options : Options) (file text : String) : Report × String :=
  let (run, session) := (Session.start options file text).run
  (.ofRun run session, run.told ⟨true, true⟩ options.prompt)

end Kaleidoscope
