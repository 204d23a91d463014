import Mathlib.Data.List.Basic
import Kaleidoscope.Proofs.Session.Account
import Kaleidoscope.Proofs.Source.Answers
import Kaleidoscope.Session.Transcript

/-! Sessions that write while they run. A dialogue prompts, attempts, and answers the attempt at once; what it has
gathered and written by then is all that it keeps. With any voice it gathers what the silent one does, and in the end
it has written, turn by turn, the prompt and one line at most. -/
namespace Kaleidoscope

structure Dialogue where
  parser : Parser
  known : KnownFunctions
  entities : List Entity
  errors : List Diagnostic
  /-- All that has been written. -/
  written : String

namespace Dialogue

def start (options : Options) (file text : String) : Dialogue :=
  ⟨Parser.ofText options.table standardNesting file text, .none, [], [], ""⟩

def write (d : Dialogue) (text : String) : Dialogue := { d with written := d.written ++ text }

def ask (voice : Voice) (options : Options) (d : Dialogue) : Dialogue :=
  if voice.interactive then d.write options.prompt else d

def record (voice : Voice) (d : Dialogue) (error : Diagnostic) : Dialogue :=
  let d := { d with errors := d.errors ++ [error] }
  if voice.interactive then d.write ("Error: " ++ error.message ++ "\n") else d

def dispatch (voice : Voice) (d : Dialogue) (entity : Entity) : Dialogue :=
  let d := { d with entities := d.entities ++ [entity] }
  if voice.announces then d.write (entity.kind.announcement ++ "\n") else d

/-- Answers an attempt: one token is passed over after an error, and the calls of an entity are checked before it is
handed on, if they are checked at all. -/
def answer (voice : Voice) (options : Options) (d : Dialogue) : Outcome → Dialogue
  | .finished | .separator => d
  | .refused error =>
    let d := d.record voice error
    { d with parser := d.parser.advance }
  | .accepted entity =>
    if options.checkCalls then
      match d.known.check entity with
      | .ok known => { d.dispatch voice entity with known := known }
      | .error error => d.record voice error
    else d.dispatch voice entity

def turn (voice : Voice) (options : Options) (d : Dialogue) : Outcome × Dialogue :=
  let d := d.ask voice options
  let (outcome, p) := d.parser.nextEntity
  (outcome, { d with parser := p }.answer voice options outcome)

variable {voice : Voice} {options : Options} {d : Dialogue}

theorem ask_eq : d.ask voice options =
    { d with written := d.written ++ if voice.interactive then options.prompt else "" } := by
  cases interactive : voice.interactive <;> simp [ask, write, interactive]

theorem record_eq (error : Diagnostic) : d.record voice error =
    { d with errors := d.errors ++ [error], written := d.written ++ (Verdict.refused error).told voice } := by
  cases interactive : voice.interactive <;> simp [record, write, Verdict.told, interactive]

theorem dispatch_eq (entity : Entity) : d.dispatch voice entity =
    { d with entities := d.entities ++ [entity], written := d.written ++ (Verdict.accepted entity).told voice } := by
  cases announces : voice.announces <;> simp [dispatch, write, Verdict.told, announces]

theorem parser_answer (outcome : Outcome) : (d.answer voice options outcome).parser =
    match outcome with
    | .refused _ => d.parser.advance
    | _ => d.parser := by
  cases outcome with
  | accepted entity =>
    simp only [answer]
    split
    · split <;> simp [record_eq, dispatch_eq]
    · simp [dispatch_eq]
  | refused error => simp [answer, record_eq]
  | _ => rfl

theorem turn_shorter (voice : Voice) (options : Options) (d : Dialogue)
    (goesOn : (d.turn voice options).1 ≠ .finished) :
    (d.turn voice options).2.parser.ahead.length < d.parser.ahead.length := by
  obtain ⟨started, progress⟩ := d.parser.nextEntity_progress
  rcases attempt : d.parser.nextEntity with ⟨outcome, p⟩
  simp only [attempt] at started progress
  simp only [turn, ask_eq, attempt, parser_answer] at goesOn ⊢
  cases outcome with
  | finished => exact absurd rfl goesOn
  | refused error =>
    have positive := List.length_pos_iff.mpr progress.1
    simp only [p.length_ahead_advance started]
    omega
  | _ => exact progress

/-- Goes on turn by turn to the end of the input or to the error limit, which is looked at after every attempt but
one at a semicolon. -/
def run (voice : Voice) (options : Options) (d : Dialogue) : Dialogue × Bool :=
  match _turn : d.turn voice options with
  | (outcome, next) =>
    if _ended : outcome = .finished then (next, false)
    else if outcome ≠ .separator ∧ options.errorLimit ≤ next.errors.length then (next, true)
    else next.run voice options
termination_by d.parser.ahead.length
decreasing_by
  have shorter := d.turn_shorter voice options
  rw [_turn] at shorter
  exact shorter _ended

def conclude (voice : Voice) (options : Options) (d : Dialogue) (stopped : Bool) : Report × String :=
  let errors := if stopped then d.errors ++ [Report.tooMany options.errorLimit] else d.errors
  let d := if voice.interactive then d.write "\n" else d
  (⟨d.entities, ⟨errors, d.parser.warnings⟩, stopped⟩, d.written)

/-- The dialogue that has come to a session by these steps. -/
def through (voice : Voice) (steps : List Step) (s : Session) : Dialogue :=
  ⟨s.parser, s.known, s.entities, steps.filterMap (·.verdict.error?),
    String.join (steps.map (Step.told voice s.options.prompt))⟩

variable {s next : Session} {step : Step} {steps : List Step}

theorem through_append (taking : s.step = (step, next)) : through voice (steps ++ [step]) next =
    ⟨next.parser, next.known, s.entities ++ step.verdict.entity?.toList,
      (through voice steps s).errors ++ step.verdict.error?.toList,
      (through voice steps s).written ++ step.told voice s.options.prompt⟩ := by
  obtain ⟨options, latest⟩ := Session.step_keeps taking
  have entities : next.entities = s.entities ++ step.verdict.entity?.toList := by
    cases accepted : step.verdict.entity? <;> simp [Session.entities, latest, accepted]
  cases met : step.verdict.error? <;> simp [through, entities, options, met]

theorem turn_through (taking : s.step = (step, next)) : (through voice steps s).turn voice s.options =
    (s.parser.nextEntity.1, through voice (steps ++ [step]) next) := by
  rcases attempt : s.parser.nextEntity with ⟨outcome, p⟩
  rw [turn, ask_eq, through_append taking]
  simp only [through, attempt]
  simp only [Session.step, attempt] at taking
  cases outcome with
  | accepted entity =>
    by_cases checks : s.options.checkCalls = true
    · simp only [Session.judge, checks, if_true] at taking
      cases passed : s.known.check entity with
      | ok known =>
        simp only [passed] at taking
        cases taking
        simp [answer, checks, passed, dispatch_eq, Verdict.error?, Verdict.entity?, Step.told, String.append_assoc]
      | error diagnostic =>
        simp only [passed] at taking
        cases taking
        simp [answer, checks, passed, record_eq, Verdict.error?, Verdict.entity?, Step.told, Verdict.told,
          String.append_assoc]
    · simp only [Session.judge, checks] at taking
      cases taking
      simp [answer, checks, dispatch_eq, Verdict.error?, Verdict.entity?, Step.told, String.append_assoc]
  | refused diagnostic =>
    cases taking
    simp [answer, record_eq, Verdict.error?, Verdict.entity?, Step.told, String.append_assoc]
  | finished | separator =>
    cases taking
    simp [answer, Verdict.error?, Verdict.entity?, Step.told, Verdict.told]

theorem run_eq {outcome : Outcome} {after : Dialogue} (taking : d.turn voice options = (outcome, after)) :
    d.run voice options =
      if outcome = .finished then (after, false)
      else if outcome ≠ .separator ∧ options.errorLimit ≤ after.errors.length then (after, true)
      else after.run voice options := by
  rw [run, taking]
  rfl

/-- The outcome of an attempt is the end just when the step is, and a step over a semicolon meets no error. -/
theorem outcome_of_step (taking : s.step = (step, next)) :
    (s.parser.nextEntity.1 = .finished ↔ step.verdict = .finished) ∧
      (s.parser.nextEntity.1 = .separator → step.verdict.error? = none) := by
  obtain ⟨turn, rfl, takes, regular⟩ := Session.exists_takes taking
  rw [takes.outcome]
  cases regular <;> simp_all [Verdict.error?]

theorem length_errors_through (taken : List Step) : (through voice (taken.reverse ++ [step]) next).errors.length =
    (taken.filterMap (·.verdict.error?)).length + step.verdict.error?.toList.length := by
  cases met : step.verdict.error? <;> simp [through, met]

/-- A dialogue that goes on from a session gathers what a run from there gathers and tells what it tells. Before every
turn fewer errors have been met than are allowed, so that a turn without one does not end it. -/
theorem run_through (taken : List Step) {allowed : Nat} (positive : 0 < allowed)
    (limit : (taken.filterMap (·.verdict.error?)).length + allowed = s.options.errorLimit) :
    (through voice taken.reverse s).run voice s.options =
      (through voice (s.runFrom allowed taken).1.steps (s.runFrom allowed taken).2,
        (s.runFrom allowed taken).1.stopped) := by
  induction s, allowed, taken using Session.runFrom.induct with
  | case1 s allowed taken step next taking ended =>
    have finished : s.parser.nextEntity.1 = .finished := (outcome_of_step taking).1.mpr ended
    simp only [Session.runFrom_eq taking, ended, if_true, run_eq (turn_through taking), finished, List.reverse_cons]
  | case2 s allowed taken step next taking goesOn fine ih =>
    obtain ⟨ends, -⟩ := outcome_of_step taking
    have none : step.verdict.error? = none := Option.isNone_iff_eq_none.mp fine
    have few : ¬ s.options.errorLimit ≤ (through voice (taken.reverse ++ [step]) next).errors.length := by
      rw [length_errors_through, none, Option.toList_none, List.length_nil]
      omega
    have same := (Session.step_keeps taking).1
    have rest := ih positive (by rw [List.filterMap_cons, none, same]; exact limit)
    rw [List.reverse_cons, same] at rest
    simp only [Session.runFrom_eq taking, goesOn, fine, if_true, if_false, run_eq (turn_through taking),
      mt ends.mp goesOn, few, and_false, rest]
  | case3 s allowed taken step next taking goesOn failed last =>
    obtain ⟨ends, separates⟩ := outcome_of_step taking
    have other : s.parser.nextEntity.1 ≠ .separator := fun separator => failed (by rw [separates separator]; rfl)
    obtain ⟨diagnostic, met⟩ := Option.ne_none_iff_exists'.mp (mt Option.isNone_iff_eq_none.mpr failed)
    have many : s.options.errorLimit ≤ (through voice (taken.reverse ++ [step]) next).errors.length := by
      rw [length_errors_through, met, Option.toList_some, List.length_singleton]
      omega
    simp [Session.runFrom_eq taking, goesOn, failed, last, run_eq (turn_through taking), mt ends.mp goesOn, other, many]
  | case4 s allowed taken step next taking goesOn failed more ih =>
    obtain ⟨ends, -⟩ := outcome_of_step taking
    obtain ⟨diagnostic, met⟩ := Option.ne_none_iff_exists'.mp (mt Option.isNone_iff_eq_none.mpr failed)
    have few : ¬ s.options.errorLimit ≤ (through voice (taken.reverse ++ [step]) next).errors.length := by
      rw [length_errors_through, met, Option.toList_some, List.length_singleton]
      omega
    have same := (Session.step_keeps taking).1
    have rest := ih (by omega) (by rw [List.filterMap_cons, met, same, List.length_cons]; omega)
    rw [List.reverse_cons, same] at rest
    simp only [Session.runFrom_eq taking, goesOn, failed, more, Bool.false_eq_true, if_false,
      run_eq (turn_through taking), mt ends.mp goesOn, few, and_false, rest]

def hold (voice : Voice) (options : Options) (file text : String) : Report × String :=
  let (d, stopped) := (start options file text).run voice options
  d.conclude voice options stopped

/-- With any voice the report is that of the program, and what is written is what the run tells. -/
theorem hold_eq (voice : Voice) (options : Options) (file text : String) : hold voice options file text =
    (parseProgram options file text, (Session.start options file text).run.1.told voice options.prompt) := by
  let session := Session.start options file text
  have same : session.run.2.options = options := session.run_keeps.1
  have whole : (start options file text).run voice options =
      (through voice session.run.1.steps session.run.2, session.run.1.stopped) :=
    run_through (s := session) [] options.errorLimit_pos (Nat.zero_add _)
  have report : parseProgram options file text = session.report := rfl
  simp only [hold, whole, conclude, through, report, Session.report, Report.ofRun, same, Run.told]
  cases interactive : voice.interactive <;> cases stopped : session.run.1.stopped <;>
    simp [write, Run.errors, session]

end Dialogue

theorem Run.told_silent (prompt : String) (run : Run) : run.told ⟨false, false⟩ prompt = "" := by
  have silent (steps : List Step) : String.join (steps.map (Step.told ⟨false, false⟩ prompt)) = "" := by
    induction steps with
    | nil => rfl
    | cons step steps ih =>
      have nothing : step.told ⟨false, false⟩ prompt = "" := by
        unfold Step.told Verdict.told
        cases step.verdict <;> rfl
      rw [List.map_cons, String.join_cons, nothing, ih]
      rfl
  rw [Run.told, silent]
  rfl

def Problem.isLimit : Problem → Bool
  | .tooManyErrors _ => true
  | _ => false

inductive Line where
  | silence
  | announcement (entity : Entity)
  | complaint (error : Diagnostic)

namespace Line

def text : Line → String
  | .silence => ""
  | .announcement entity => entity.kind.announcement ++ "\n"
  | .complaint error => "Error: " ++ error.message ++ "\n"

def entity? : Line → Option Entity
  | .announcement entity => some entity
  | _ => none

def error? : Line → Option Diagnostic
  | .complaint error => some error
  | _ => none

end Line

namespace Turn

/-- The line that answers a turn. For an entity that is read it depends on whether its calls are found at fault. -/
def line (turn : Turn) : Line :=
  match turn.outcome, turn.step.verdict.error? with
  | .finished, _ | .separator, _ => .silence
  | .accepted entity, none => .announcement entity
  | .accepted _, some fault => .complaint fault
  | .refused error, _ => .complaint error

variable {checks : Bool} {final : Token} {turn : Turn}

theorem IsRegular.told_eq (regular : turn.IsRegular checks final) (prompt : String) :
    turn.step.told ⟨true, true⟩ prompt = prompt ++ turn.line.text := by
  cases regular <;> simp_all [Step.told, Verdict.told, line, Line.text, Verdict.error?]

theorem IsRegular.entity?_line (regular : turn.IsRegular checks final) :
    turn.line.entity? = turn.step.verdict.entity? := by
  cases regular <;> simp_all [line, Line.entity?, Verdict.error?, Verdict.entity?]

theorem IsRegular.error?_line (regular : turn.IsRegular checks final) :
    turn.line.error? = turn.step.verdict.error? := by
  cases regular <;> simp_all [line, Line.error?, Verdict.error?]

theorem IsRegular.isLimit_eq_false (regular : turn.IsRegular checks final) :
    ∀ error ∈ turn.step.verdict.error?, error.problem.isLimit = false := by
  have syntactic {problem : Problem} (kind : problem.isSyntactic = true) : problem.isLimit = false := by
    cases problem <;> first | rfl | cases kind
  have semantic {problem : Problem} (kind : problem.isSemantic = true) : problem.isLimit = false := by
    cases problem <;> first | rfl | cases kind
  cases regular with
  | rejected _ fails kind => simpa [fails, Verdict.error?] using semantic kind
  | refused fails kind => simpa [fails, Verdict.error?] using syntactic kind
  | refusedAtEnd fails kind => simpa [fails, Verdict.error?] using syntactic kind
  | _ => simp_all [Verdict.error?]

end Turn

/-- An interactive session reports what the program's reading reports, and tells it faithfully. Its source is a stream
that hands over the characters of the text, and whatever comes behind the first empty piece changes nothing. It does
what a dialogue does that writes while it runs, and the silent dialogue gathers the same. It writes, for each turn of
the run, the prompt and the line that answers the turn, and one line feed in the end. The announcements are of the
entities of the report in their order, and the complaints are of its errors but the one that there are too many. -/
theorem interactive_session_agrees (options : Options) (file text : String) (later : List String) :
    let pieces := Stream.ofText text ++ "" :: later
    let program := parseProgram options file text
    let conversation := converse options file (Stream.text pieces)
    let session := Session.start options file text
    (∀ count, answersOf StreamSource.readChar count (.ofStream pieces) =
      answersOf TextSource.readChar count (.ofText text)) ∧
    conversation = Dialogue.hold ⟨true, true⟩ options file (Stream.text pieces) ∧
    Dialogue.hold ⟨false, false⟩ options file text = (program, "") ∧
    conversation.1 = program ∧
    ∃ turns, Session.Turns session turns session.run.2 ∧ session.run.1.steps = turns.map (·.step) ∧
      (∀ turn ∈ turns, turn.IsRegular options.checkCalls (tokenize file text).final) ∧
      conversation.2 = String.join (turns.map fun turn => options.prompt ++ turn.line.text) ++ "\n" ∧
      turns.filterMap (·.line.entity?) = program.entities ∧
      turns.filterMap (·.line.error?) = program.findings.errors.filter (!·.problem.isLimit) := by
  intro pieces program conversation session
  have content : Stream.text pieces = text := Stream.text_ofText_append text later
  have answers (count : Nat) := StreamSource.answers_ofText text later count
  have held : conversation = Dialogue.hold ⟨true, true⟩ options file (Stream.text pieces) := by
    rw [Dialogue.hold_eq]
    rfl
  have silent : Dialogue.hold ⟨false, false⟩ options file text = (program, "") := by
    rw [Dialogue.hold_eq, Run.told_silent]
  have same : conversation.1 = program := by rw [held, Dialogue.hold_eq, content]
  obtain ⟨turns, path, steps, regular⟩ := session.run_turns
  have entities : program.entities = turns.filterMap (·.step.verdict.entity?) := Session.entities_of_turns rfl steps
  have met : session.run.1.errors = turns.filterMap (·.step.verdict.error?) := Session.errors_of_turns steps
  have grammatical : ∀ error ∈ session.run.1.errors, (!error.problem.isLimit) = true := by
    rw [met]
    intro error member
    obtain ⟨turn, among, found⟩ := List.mem_filterMap.mp member
    rw [(regular turn among).isLimit_eq_false error found]
    rfl
  have errors : program.findings.errors.filter (!·.problem.isLimit) = session.run.1.errors := by
    have reported : program.findings.errors = session.run.1.errors ++ _ := session.errors_report
    rw [reported, List.filter_append, List.filter_eq_self.mpr grammatical]
    cases session.run.1.stopped <;> simp [Report.tooMany, Problem.isLimit]
  refine ⟨answers, held, silent, same, turns, path, steps, regular, ?_, ?_, ?_⟩
  · have told : turns.map (Step.told ⟨true, true⟩ options.prompt ∘ Turn.step) =
        turns.map fun turn => options.prompt ++ turn.line.text :=
      List.map_congr_left fun turn member => (regular turn member).told_eq options.prompt
    have written : conversation.2 = session.run.1.told ⟨true, true⟩ options.prompt := by
      rw [held, Dialogue.hold_eq, content]
    rw [written, Run.told, steps, List.map_map, told]
    rfl
  · rw [entities]
    exact List.filterMap_congr fun turn member => (regular turn member).entity?_line
  · rw [errors, met]
    exact List.filterMap_congr fun turn member => (regular turn member).error?_line

/-- An entity, a semicolon, a token that starts nothing, and the end. -/
example : (converse Options.standard "" "x+1; )").2 = "ready> Parsed a top-level expr\nready> ready> " ++
    "Error: unknown token when expecting an expression\nready> \n" := by
  decide +kernel

end Kaleidoscope
