import Kaleidoscope.Diagnostic.Findings
import Kaleidoscope.Grammar.Parser
import Kaleidoscope.Session.Arity
import Kaleidoscope.Session.Options

/-!
# Sessions

A session reads a program entity by entity. After an entity that cannot be read it drops one token and
goes on from there; an entity whose calls are at fault is rejected. A run goes on to the end of the
input or to the error limit, and the next run resumes where it stopped. What a run did is recorded
step by step, and reports, transcripts and logs are views of the record.
-/

namespace Kaleidoscope

inductive Verdict where
  | finished
  | separator
  | accepted (entity : Entity)
  | rejected (entity : Entity) (diagnostic : Diagnostic)
  | refused (diagnostic : Diagnostic)
  deriving DecidableEq, Repr

namespace Verdict

def entity? : Verdict → Option Entity
  | .accepted entity => some entity
  | _ => none

def error? : Verdict → Option Diagnostic
  | .rejected _ diagnostic | .refused diagnostic => some diagnostic
  | _ => none

end Verdict

structure Step where
  verdict : Verdict
  first : Token
  last : Token
  /-- The token at which reading goes on, if one was dropped. -/
  resumed? : Option Token
  deriving DecidableEq, Repr

structure Run where
  steps : List Step
  /-- Whether the error limit ended the run. -/
  stopped : Bool

structure Session where
  options : Options
  parser : Parser
  known : KnownFunctions
  /-- The entities accepted so far, the latest first. -/
  latest : List Entity

namespace Session

def start (options : Options) (file text : String) : Session :=
  ⟨options, Parser.ofText options.table standardNesting file text, .none, []⟩

def judge (s : Session) (entity : Entity) : Verdict × KnownFunctions :=
  if s.options.checkCalls then
    match s.known.check entity with
    | .ok known => (.accepted entity, known)
    | .error diagnostic => (.rejected entity diagnostic, s.known)
  else (.accepted entity, s.known)

def step (s : Session) : Step × Session :=
  let first := s.parser.current
  match s.parser.nextEntity with
  | (.finished, p) => (⟨.finished, first, p.current, none⟩, { s with parser := p })
  | (.separator, p) => (⟨.separator, first, p.current, none⟩, { s with parser := p })
  | (.accepted entity, p) =>
    let (verdict, known) := s.judge entity
    (⟨verdict, first, p.current, none⟩,
      { s with parser := p, known := known, latest := verdict.entity?.toList ++ s.latest })
  | (.refused diagnostic, p) =>
    let next := p.advance
    (⟨.refused diagnostic, first, p.current, some next.current⟩, { s with parser := next })

theorem step_shorter (s : Session) (h : s.step.1.verdict ≠ .finished) :
    s.step.2.parser.ahead.length < s.parser.ahead.length := by
  have progress := s.parser.nextEntity_progress
  unfold step at h ⊢
  rcases next : s.parser.nextEntity with ⟨outcome, p⟩
  rw [next] at progress
  cases outcome with
  | finished => simp [next] at h
  | separator => simpa [next] using progress.2
  | accepted entity => simpa [next] using progress.2
  | refused diagnostic =>
    obtain ⟨started, some, most⟩ := progress
    have positive := List.length_pos_iff.mpr some
    have dropped := p.length_ahead_advance started
    simp only [dropped]
    simp only at most
    omega

/-- Steps to the end of the input or until `allowed` errors have occurred, after those taken already,
the latest of which comes first. -/
def runFrom (s : Session) (allowed : Nat) (taken : List Step) : Run × Session :=
  match taking : s.step with
  | (step, next) =>
    if ended : step.verdict = .finished then (⟨(step :: taken).reverse, false⟩, next)
    else if step.verdict.error?.isNone then next.runFrom allowed (step :: taken)
    else if allowed ≤ 1 then (⟨(step :: taken).reverse, true⟩, next)
    else next.runFrom (allowed - 1) (step :: taken)
termination_by s.parser.ahead.length
decreasing_by
  all_goals
    have shorter := s.step_shorter
    rw [taking] at shorter
    exact shorter ended

def run (s : Session) : Run × Session := s.runFrom s.options.errorLimit []

def entities (s : Session) : List Entity := s.latest.reverse

end Session

namespace Run

def errors (run : Run) : List Diagnostic := run.steps.filterMap (·.verdict.error?)

end Run

structure Report where
  entities : List Entity
  findings : Findings
  stopped : Bool
  deriving DecidableEq, Repr

namespace Report

def isOk (report : Report) : Bool := report.findings.errors.isEmpty

/-- The diagnostic that says that the error limit was reached. -/
def tooMany (limit : Nat) : Diagnostic :=
  ⟨.tooManyErrors ("Too many errors (" ++ toString limit ++ "), stopping"), none, none⟩

/-- The report of a run that left the session as it is. -/
def ofRun (run : Run) (s : Session) : Report :=
  let last := if run.stopped then [tooMany s.options.errorLimit] else []
  ⟨s.entities, ⟨run.errors ++ last, s.parser.warnings⟩, run.stopped⟩

end Report

def parseProgram (options : Options) (file text : String) : Report :=
  let (run, session) := (Session.start options file text).run
  .ofRun run session

end Kaleidoscope
