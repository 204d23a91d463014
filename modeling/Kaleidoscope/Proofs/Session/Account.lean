import Kaleidoscope.Proofs.Grammar.Relocation
import Kaleidoscope.Proofs.Session.Filtering

/-! The account of a run. A turn of a session is one attempt of its parser and what comes of it. It takes the tokens
that the attempt reads and the one that is dropped after an error. The turns of a run take the tokens one after
another up to where the run ends, and every turn takes some but the one that finds the end of the input. -/
namespace Kaleidoscope

structure Turn where
  outcome : Outcome
  step : Step
  /-- The tokens that the attempt has read. -/
  read : List Token
  /-- The token that is passed over after an error, unless the input has ended there. -/
  dropped : List Token

namespace Turn

def taken (turn : Turn) : List Token := turn.read ++ turn.dropped

/-- All that a turn can be. An entity that is read is accepted or, if calls are checked, rejected; after an attempt
that is refused the token that does not fit is dropped, unless it is the one at the end of the input. -/
inductive IsRegular (checks : Bool) (final : Token) : Turn → Prop where
  | finished {step : Step} (ended : step.verdict = .finished) : IsRegular checks final ⟨.finished, step, [], []⟩
  | separator {step : Step} {token : Token} (passed : step.verdict = .separator)
      (semicolon : token.lexeme = .character ';') : IsRegular checks final ⟨.separator, step, [token], []⟩
  | accepted {step : Step} {read : List Token} (keeps : step.verdict = .accepted entity) (some : read ≠ []) :
      IsRegular checks final ⟨.accepted entity, step, read, []⟩
  | rejected {step : Step} {read : List Token} (checked : checks = true)
      (fails : step.verdict = .rejected entity diagnostic) (semantic : diagnostic.problem.isSemantic = true)
      (some : read ≠ []) : IsRegular checks final ⟨.accepted entity, step, read, []⟩
  | refused {step : Step} {read : List Token} (fails : step.verdict = .refused diagnostic)
      (syntactic : diagnostic.problem.isSyntactic = true) :
      IsRegular checks final ⟨.refused diagnostic, step, read, [step.last]⟩
  | refusedAtEnd {step : Step} {read : List Token} (fails : step.verdict = .refused diagnostic)
      (syntactic : diagnostic.problem.isSyntactic = true) (some : read ≠ []) (stuck : step.last = final) :
      IsRegular checks final ⟨.refused diagnostic, step, read, []⟩

variable {checks : Bool} {final : Token} {turn : Turn} {turns : List Turn}

theorem IsRegular.takes (regular : turn.IsRegular checks final) (goesOn : turn.outcome ≠ .finished) :
    turn.taken ≠ [] := by
  cases regular <;> simp_all [taken]

theorem IsRegular.outcome_of_ended (regular : turn.IsRegular checks final) (ended : turn.step.verdict = .finished) :
    turn.outcome = .finished := by
  cases regular <;> simp_all

/-- Of an entity, an error and a semicolon a turn that is not the end is about just one. -/
theorem counts_eq (regular : ∀ turn ∈ turns, turn.IsRegular checks final) :
    (turns.filterMap (·.step.verdict.entity?)).length + (turns.filterMap (·.step.verdict.error?)).length +
      turns.countP (·.outcome = .separator) = turns.countP (·.outcome ≠ .finished) := by
  simp only [List.length_filterMap_eq_countP]
  induction turns with
  | nil => rfl
  | cons turn turns ih =>
    obtain ⟨first, others⟩ := List.forall_mem_cons.mp regular
    have rest := ih others
    simp only [List.countP_cons, ← rest]
    cases first with
    | finished ended => simp [ended, Verdict.entity?, Verdict.error?]
    | separator passed => simp [passed, Verdict.entity?, Verdict.error?]; omega
    | accepted keeps => simp [keeps, Verdict.entity?, Verdict.error?]; omega
    | rejected _ fails => simp [fails, Verdict.entity?, Verdict.error?]; omega
    | refused fails => simp [fails, Verdict.entity?, Verdict.error?]; omega
    | refusedAtEnd fails => simp [fails, Verdict.entity?, Verdict.error?]; omega

theorem countP_le_length_taken (regular : ∀ turn ∈ turns, turn.IsRegular checks final) :
    turns.countP (·.outcome ≠ .finished) ≤ (turns.flatMap taken).length := by
  induction turns with
  | nil => exact Nat.le_refl 0
  | cons turn turns ih =>
    obtain ⟨first, others⟩ := List.forall_mem_cons.mp regular
    have rest := ih others
    rw [List.flatMap_cons, List.length_append]
    by_cases ended : turn.outcome = .finished
    · rw [List.countP_cons_of_neg (by simp [ended])]
      omega
    · have some : 0 < turn.taken.length := List.length_pos_iff.mpr (first.takes ended)
      rw [List.countP_cons_of_pos (by simp [ended])]
      omega

theorem accepted_add_semantic (regular : ∀ turn ∈ turns, turn.IsRegular checks final) :
    (turns.filterMap (·.step.verdict.entity?)).length +
        (turns.filterMap (·.step.verdict.error?)).countP (·.problem.isSemantic) =
      turns.countP (·.outcome matches .accepted _) := by
  induction turns with
  | nil => rfl
  | cons turn turns ih =>
    obtain ⟨first, others⟩ := List.forall_mem_cons.mp regular
    have rest := ih others
    simp only [List.countP_cons, ← rest]
    cases first with
    | finished ended => simp [ended, Verdict.entity?, Verdict.error?]
    | separator passed => simp [passed, Verdict.entity?, Verdict.error?]
    | accepted keeps => simp [keeps, Verdict.entity?, Verdict.error?]; omega
    | rejected _ fails semantic => simp [fails, semantic, Verdict.entity?, Verdict.error?]; omega
    | refused fails syntactic =>
      simp [fails, Problem.isSemantic_eq_false syntactic, Verdict.entity?, Verdict.error?]
    | refusedAtEnd fails syntactic =>
      simp [fails, Problem.isSemantic_eq_false syntactic, Verdict.entity?, Verdict.error?]

end Turn

namespace Session

/-- The session takes this turn and goes on as the next. -/
structure Takes (s : Session) (turn : Turn) (next : Session) : Prop where
  step : s.step = (turn.step, next)
  outcome : s.parser.nextEntity.1 = turn.outcome
  read : s.parser.ahead = turn.read ++ s.parser.nextEntity.2.ahead
  dropped : s.parser.nextEntity.2.ahead = turn.dropped ++ next.parser.ahead

/-- The session takes these turns one after another and ends as the last. -/
inductive Turns : Session → List Turn → Session → Prop where
  | done : Turns s [] s
  | turn (takes : s.Takes turn next) (rest : Turns next turns last) : Turns s (turn :: turns) last

variable {s next last : Session} {turn : Turn} {turns : List Turn} {step : Step}

theorem judge_verdict (s : Session) (entity : Entity) :
    (s.judge entity).1 = .accepted entity ∨
      ∃ diagnostic, s.options.checkCalls = true ∧ diagnostic.problem.isSemantic = true ∧
        (s.judge entity).1 = .rejected entity diagnostic := by
  by_cases checks : s.options.checkCalls = true
  · rw [judge_of_checks checks]
    rcases s.known.checked_cases entity with ⟨-, passed⟩ | ⟨diagnostic, semantic, failed⟩
    · exact .inl (by rw [passed]; rfl)
    · exact .inr ⟨diagnostic, checks, semantic, by rw [failed]; rfl⟩
  · exact .inl (by rw [judge_of_no_checks (Bool.eq_false_iff.mpr checks)])

theorem elsewhere_step (taking : s.step = (step, next)) : s.parser.Elsewhere next.parser := by
  have there := s.parser.elsewhere_nextEntity
  rcases attempt : s.parser.nextEntity with ⟨outcome, p⟩
  rw [attempt] at there
  simp only [Session.step, attempt] at taking
  cases outcome with
  | refused diagnostic =>
    cases taking
    exact there.trans p.elsewhere_advance
  | _ =>
    cases taking
    exact there

theorem exists_takes (taking : s.step = (step, next)) :
    ∃ turn, turn.step = step ∧ s.Takes turn next ∧
      turn.IsRegular s.options.checkCalls s.parser.sequence.final := by
  have same := taking
  obtain ⟨used, split⟩ := s.parser.nextEntity_suffix
  rcases s.parser.nextEntity_cases with ⟨nothing, attempt⟩ | ⟨token, rest, front, semicolon, attempt⟩ |
    ⟨entity, rest, yields, attempt⟩ | ⟨token, behind, expected, rest, p, front, -, fails, reached, attempt⟩
  · rw [Session.step, attempt] at taking
    cases taking
    exact ⟨⟨.finished, _, [], []⟩, rfl, ⟨same, by rw [attempt], by rw [attempt]; rfl, by rw [attempt]; rfl⟩,
      .finished rfl⟩
  · rw [Session.step, attempt] at taking
    cases taking
    exact ⟨⟨.separator, _, [token], []⟩, rfl, ⟨same, by rw [attempt], by rw [attempt]; exact front,
      by rw [attempt]; rfl⟩, .separator rfl semicolon⟩
  · have shorter := s.parser.nextEntity_progress.2
    simp only [attempt] at split shorter
    have some : used ≠ [] := by
      rintro rfl
      simp [← split] at shorter
    have verdict := s.judge_verdict entity
    rw [Session.step, attempt] at taking
    cases taking
    refine ⟨⟨.accepted entity, _, used, []⟩, rfl, ⟨same, by rw [attempt], by rw [attempt, ← split],
      by rw [attempt]; rfl⟩, ?_⟩
    rcases verdict with keeps | ⟨diagnostic, checks, semantic, fails⟩
    · exact .accepted keeps some
    · exact .rejected checks fails semantic some
  · have started := s.parser.nextEntity_progress.1
    have syntactic := expected.isSyntactic_problem p.current.description p.nesting
    rw [Session.step, attempt] at taking
    cases taking
    simp only [attempt] at split started
    cases left : p.ahead with
    | nil =>
      have some : used ≠ [] := by
        rintro rfl
        rw [List.nil_append, left, front] at split
        cases split
      have final : p.current = s.parser.sequence.final := by
        rw [Parser.current, left, reached]
        rfl
      exact ⟨⟨.refused _, _, used, []⟩, rfl, ⟨same, by rw [attempt], by rw [attempt, ← split],
        by simp [attempt, Parser.advance, started, left]⟩, .refusedAtEnd rfl syntactic some final⟩
    | cons stuck others =>
      have current : p.current = stuck := by
        rw [Parser.current, left]
        rfl
      refine ⟨⟨.refused _, _, used, [stuck]⟩, rfl, ⟨same, by rw [attempt], by rw [attempt, ← split],
        by simp [attempt, Parser.advance, started, left]⟩, ?_⟩
      rw [← current]
      exact .refused rfl syntactic

theorem Turns.split (h : Turns s turns last) : s.parser.ahead = turns.flatMap Turn.taken ++ last.parser.ahead := by
  induction h with
  | done => rfl
  | turn takes _ ih =>
    rw [takes.read, takes.dropped, ih, List.flatMap_cons, Turn.taken, List.append_assoc, List.append_assoc]

theorem runFrom_turns (s : Session) (allowed : Nat) (taken : List Step) :
    ∃ turns, Turns s turns (s.runFrom allowed taken).2 ∧
      (s.runFrom allowed taken).1.steps = taken.reverse ++ turns.map (·.step) ∧
      ∀ turn ∈ turns, turn.IsRegular s.options.checkCalls s.parser.sequence.final := by
  induction s, allowed, taken using runFrom.induct with
  | case1 s allowed taken step next taking ended =>
    obtain ⟨turn, rfl, takes, regular⟩ := exists_takes taking
    simp only [runFrom_eq taking, ended, if_true]
    exact ⟨[turn], .turn takes .done, by simp, by simpa using regular⟩
  | case2 s allowed taken step next taking goesOn fine ih =>
    obtain ⟨turn, rfl, takes, regular⟩ := exists_takes taking
    obtain ⟨turns, path, steps, others⟩ := ih
    rw [(step_keeps taking).1, (elsewhere_step taking).2.2] at others
    simp only [runFrom_eq taking, goesOn, fine, if_true, if_false]
    exact ⟨turn :: turns, .turn takes path, by simp [steps], List.forall_mem_cons.mpr ⟨regular, others⟩⟩
  | case3 s allowed taken step next taking goesOn failed last =>
    obtain ⟨turn, rfl, takes, regular⟩ := exists_takes taking
    simp only [runFrom_eq taking, goesOn, failed, last, if_true, if_false]
    exact ⟨[turn], .turn takes .done, by simp, by simpa using regular⟩
  | case4 s allowed taken step next taking goesOn failed more ih =>
    obtain ⟨turn, rfl, takes, regular⟩ := exists_takes taking
    obtain ⟨turns, path, steps, others⟩ := ih
    rw [(step_keeps taking).1, (elsewhere_step taking).2.2] at others
    simp only [runFrom_eq taking, goesOn, failed, more, if_false]
    exact ⟨turn :: turns, .turn takes path, by simp [steps], List.forall_mem_cons.mpr ⟨regular, others⟩⟩

theorem run_turns (s : Session) :
    ∃ turns, Turns s turns s.run.2 ∧ s.run.1.steps = turns.map (·.step) ∧
      ∀ turn ∈ turns, turn.IsRegular s.options.checkCalls s.parser.sequence.final :=
  s.runFrom_turns s.options.errorLimit []

theorem ahead_exhausted (s : Session) : s.exhausted.parser.ahead = [] := by
  induction s using trace_induction with
  | ended s step next taking ended =>
    obtain ⟨turn, rfl, takes, regular⟩ := exists_takes taking
    have nothing := s.parser.nextEntity_progress.2
    rw [takes.outcome, regular.outcome_of_ended ended] at nothing
    have left := takes.read.symm.trans nothing
    rw [takes.dropped] at left
    rw [exhausted_ended taking ended]
    exact (List.append_eq_nil_iff.mp (List.append_eq_nil_iff.mp left).2).2
  | more s step next taking goesOn ih => rw [exhausted_more taking goesOn, ih]

theorem length_trace_le (s : Session) : s.trace.length ≤ s.parser.ahead.length + 1 := by
  induction s using trace_induction with
  | ended s step next taking ended => simp [trace_ended taking ended]
  | more s step next taking goesOn ih =>
    have shorter := s.step_shorter
    simp only [taking] at shorter
    have less := shorter goesOn
    rw [trace_more taking goesOn, List.length_cons]
    omega

theorem length_steps_le (s : Session) : s.run.1.steps.length ≤ s.parser.ahead.length + 1 := by
  have whole : s.run.1.steps ++ Cut.behind Step.fails s.options.errorLimit s.trace = s.trace := by
    rw [s.run_eq_cut.1, Cut.upTo_append_behind]
  calc s.run.1.steps.length
    _ ≤ s.trace.length := by rw [← whole, List.length_append]; exact Nat.le_add_right _ _
    _ ≤ s.parser.ahead.length + 1 := s.length_trace_le

theorem entities_of_turns (fresh : s.latest = []) (steps : s.run.1.steps = turns.map (·.step)) :
    s.report.entities = turns.filterMap (·.step.verdict.entity?) := by
  rw [report, Report.ofRun, entities, s.run_keeps.2, fresh, List.append_nil, List.reverse_reverse, steps,
    List.filterMap_map]
  rfl

theorem errors_of_turns (steps : s.run.1.steps = turns.map (·.step)) :
    s.run.1.errors = turns.filterMap (·.step.verdict.error?) := by
  rw [Run.errors, steps, List.filterMap_map]
  rfl

theorem length_errors_of_stopped (s : Session) (stopped : s.run.1.stopped = true) :
    s.run.1.errors.length = s.options.errorLimit := by
  have many := s.run_eq_cut.2.1.mp stopped
  rw [Step.countP_fails] at many
  rw [s.run_errors, List.length_take, Nat.min_eq_left many]

/-- The errors of a report are those that the run meets, and last that it was stopped. -/
theorem errors_report (s : Session) : s.report.findings.errors =
    s.run.1.errors ++ if s.run.1.stopped then [Report.tooMany s.options.errorLimit] else [] := by
  rw [report, Report.ofRun, s.run_keeps.1]

end Session

/-- A run accounts for every token. Its turns are at most one more than there are tokens. Every turn takes some tokens
but the one that finds the end, and together with what is left when the errors reach their limit they are all the
tokens in order. So entities, errors and semicolons are no more than tokens, and each entity that is read is accepted
or is one error of a call. -/
theorem run_accounts_for_tokens (options : Options) (file text : String) :
    let session := Session.start options file text
    let tokens := (tokenize file text).tokens
    let report := parseProgram options file text
    let errors := session.run.1.errors
    ∃ turns, Session.Turns session turns session.run.2 ∧ session.run.1.steps = turns.map (·.step) ∧
      turns.length ≤ tokens.length + 1 ∧
      (∀ turn ∈ turns, turn.IsRegular options.checkCalls (tokenize file text).final ∧
        (turn.outcome ≠ .finished → turn.taken ≠ [])) ∧
      tokens = turns.flatMap Turn.taken ++ session.run.2.parser.ahead ∧
      (report.stopped = false → tokens = turns.flatMap Turn.taken) ∧
      (report.stopped = true → errors.length = options.errorLimit) ∧
      report.findings.errors = errors ++ (if report.stopped then [Report.tooMany options.errorLimit] else []) ∧
      report.entities.length + errors.length + turns.countP (·.outcome = .separator) ≤ tokens.length ∧
      report.entities.length + errors.countP (·.problem.isSemantic) =
        turns.countP (·.outcome matches .accepted _) := by
  intro session tokens report errors
  obtain ⟨turns, path, steps, regular⟩ := session.run_turns
  have split : tokens = turns.flatMap Turn.taken ++ session.run.2.parser.ahead := path.split
  have entities : report.entities = turns.filterMap (·.step.verdict.entity?) := Session.entities_of_turns rfl steps
  have met : errors = turns.filterMap (·.step.verdict.error?) := Session.errors_of_turns steps
  have within : turns.length ≤ tokens.length + 1 := by
    have most : session.run.1.steps.length ≤ tokens.length + 1 := session.length_steps_le
    rwa [steps, List.length_map] at most
  have each (turn : Turn) (member : turn ∈ turns) :
      turn.IsRegular options.checkCalls (tokenize file text).final ∧ (turn.outcome ≠ .finished → turn.taken ≠ []) :=
    ⟨regular turn member, (regular turn member).takes⟩
  refine ⟨turns, path, steps, within, each, split, fun through => ?_, session.length_errors_of_stopped,
    session.errors_report, ?_, ?_⟩
  · rw [split, (Session.run_of_unstopped through).2, session.ahead_exhausted, List.append_nil]
  · rw [entities, met, Turn.counts_eq regular, split, List.length_append]
    exact Nat.le_add_right_of_le (Turn.countP_le_length_taken regular)
  · rw [entities, met]
    exact Turn.accepted_add_semantic regular

end Kaleidoscope
