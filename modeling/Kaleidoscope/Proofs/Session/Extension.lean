import Kaleidoscope.Proofs.Grammar.Extension
import Kaleidoscope.Proofs.Grammar.Nesting
import Kaleidoscope.Proofs.Session.Trace

/-! Programs under tables with more operators. A program that is read without an error is read in the same way, since
every attempt in it is followed by one that is not refused. -/
namespace Kaleidoscope

namespace Session

variable {s next : Session} {step : Step} {table : OperatorTable}

def withTable (s : Session) (table : OperatorTable) : Session :=
  { s with options := { s.options with table := table }, parser := s.parser.withTable table }

theorem table_step (taking : s.step = (step, next)) (fine : step.verdict.error? = none) :
    next.parser.table = s.parser.table := by
  rcases attempt : s.parser.nextEntity with ⟨outcome, p⟩
  have kept : p.table = s.parser.table := by
    have elsewhere := s.parser.elsewhere_nextEntity.1
    rwa [attempt] at elsewhere
  simp only [Session.step, attempt] at taking
  cases outcome <;> cases taking
  case refused => cases fine
  all_goals exact kept

/-- A step without an error starts where no operator stands. -/
theorem closed_of_step (taking : s.step = (step, next)) (fine : step.verdict.error? = none) :
    Grammar.Closed s.parser.ahead := by
  rcases attempt : s.parser.nextEntity with ⟨outcome, p⟩
  refine Parser.closed_of_attempt attempt ?_
  rintro diagnostic rfl
  simp only [Session.step, attempt] at taking
  cases taking
  cases fine

/-- A step without an error is the same if no operator stands behind it. -/
theorem step_withTable (extended : table.Extends s.parser.table) (taking : s.step = (step, next))
    (fine : step.verdict.error? = none) (closed : Grammar.Closed next.parser.ahead) :
    (s.withTable table).step = (step, next.withTable table) := by
  rcases attempt : s.parser.nextEntity with ⟨outcome, p⟩
  have same : p = next.parser → (∀ diagnostic, outcome ≠ .refused diagnostic) →
      (s.parser.withTable table).nextEntity = (outcome, p.withTable table) := by
    rintro rfl unrefused
    exact Parser.nextEntity_withTable extended attempt unrefused closed
  simp only [Session.step, attempt] at taking
  cases outcome <;> cases taking
  case refused => cases fine
  all_goals
    simp only [Session.step, withTable, same rfl (by simp)]
    rfl

theorem closed_of_ended (taking : s.step = (step, next)) (ended : step.verdict = .finished) :
    Grammar.Closed next.parser.ahead := by
  rcases s.parser.nextEntity_cases with ⟨nothing, attempt⟩ | ⟨_, _, -, -, attempt⟩ | ⟨entity, _, -, attempt⟩ |
    ⟨_, _, _, _, _, -, -, -, -, attempt⟩ <;> simp only [Session.step, attempt] at taking <;> cases taking
  · simp [Grammar.Closed, Parser.look, nothing]
  · cases ended
  · rcases s.judge_cases entity with ⟨_, judged, -⟩ | ⟨_, judged, -⟩ <;> rw [judged] at ended <;> cases ended
  · cases ended

theorem closed_of_trace (clean : ∀ step ∈ s.trace, step.verdict.error? = none) : Grammar.Closed s.parser.ahead := by
  rcases taking : s.step with ⟨step, next⟩
  have first : step ∈ s.trace := by
    by_cases ended : step.verdict = .finished
    · simp [trace_ended taking ended]
    · simp [trace_more taking ended]
  exact closed_of_step taking (clean step first)

theorem trace_withTable (extended : table.Extends s.parser.table)
    (clean : ∀ step ∈ s.trace, step.verdict.error? = none) :
    (s.withTable table).trace = s.trace ∧ (s.withTable table).exhausted = s.exhausted.withTable table := by
  induction s using trace_induction with
  | ended s step next taking ended =>
    have fine : step.verdict.error? = none := by rw [ended]; rfl
    have taking' := step_withTable extended taking fine (closed_of_ended taking ended)
    rw [trace_ended taking ended, exhausted_ended taking ended]
    exact ⟨trace_ended taking' ended, exhausted_ended taking' ended⟩
  | more s step next taking goesOn ih =>
    rw [trace_more taking goesOn] at clean
    obtain ⟨fine, later⟩ := List.forall_mem_cons.mp clean
    -- What follows the step is known only from the steps behind it: none of them is refused.
    have taking' := step_withTable extended taking fine (closed_of_trace later)
    obtain ⟨trace, exhausted⟩ := ih (by rwa [table_step taking fine]) later
    rw [trace_more taking' goesOn, trace_more taking goesOn, exhausted_more taking' goesOn,
      exhausted_more taking goesOn, trace, exhausted]
    exact ⟨rfl, rfl⟩

end Session

theorem clean_of_isOk {options : Options} {file text : String} (ok : (parseProgram options file text).isOk = true) :
    (parseProgram options file text).stopped = false ∧
      ∀ step ∈ (Session.start options file text).trace, step.verdict.error? = none := by
  obtain ⟨session, started⟩ : ∃ session, session = Session.start options file text := ⟨_, rfl⟩
  have report : parseProgram options file text = session.report := by rw [started]; rfl
  rw [report] at ok ⊢
  have none : session.run.1.errors = [] ∧ session.run.1.stopped = false := by
    simpa [Report.isOk, Session.report, Report.ofRun, List.isEmpty_iff] using ok
  refine ⟨none.2, fun step member => ?_⟩
  have errors := none.1
  rw [Run.errors, (Session.run_of_unstopped none.2).1, started] at errors
  exact List.filterMap_eq_nil_iff.mp errors step member

theorem Session.unstopped_of_clean {s : Session} (clean : ∀ step ∈ s.trace, step.verdict.error? = none) :
    s.run.1.stopped = false := by
  have none : s.trace.countP Step.fails = 0 :=
    List.countP_eq_zero.mpr fun step member => by simp [Step.fails, clean step member]
  have some := s.options.errorLimit_pos
  exact Bool.eq_false_iff.mpr (mt s.run_eq_cut.2.1.mp (by omega))

/-- A program that is read without an error is read in the same way under a table with more operators: without an
error, and with the same entities and warnings. -/
theorem parseProgram_extend {options : Options} {table : OperatorTable} (extended : table.Extends options.table)
    (file text : String) (ok : (parseProgram options file text).isOk = true) :
    parseProgram { options with table := table } file text = parseProgram options file text := by
  let session := Session.start options file text
  obtain ⟨through, clean⟩ := clean_of_isOk ok
  obtain ⟨trace, exhausted⟩ : (session.withTable table).trace = session.trace ∧
      (session.withTable table).exhausted = session.exhausted.withTable table := Session.trace_withTable extended clean
  have through' : (session.withTable table).run.1.stopped = false :=
    Session.unstopped_of_clean fun step member => clean step (trace ▸ member)
  have reported := Session.report_of_unstopped rfl through'
  rw [trace, exhausted] at reported
  exact reported.trans (Session.report_of_unstopped rfl through).symm

/-- A slash that becomes an operator, in front of a number that is no proper one. -/
theorem parseProgram_extend_slash :
    let table := OperatorTable.standard.insert '/' 40 rfl
    let text := "def half(x) x*0.5 half(1.2.3)"
    table.Extends .standard ∧ (parseProgram .standard "half" text).isOk = true ∧
      (parseProgram { Options.standard with table := table } "half" text) = parseProgram .standard "half" text := by
  intro table text
  have extended : table.Extends .standard := OperatorTable.extends_insert rfl (by decide) 40
  have ok : (parseProgram .standard "half" text).isOk = true := by decide +kernel
  exact ⟨extended, ok, parseProgram_extend extended "half" text ok⟩

end Kaleidoscope
