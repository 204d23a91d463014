import Kaleidoscope.Proofs.Grammar.Recovery
import Kaleidoscope.Proofs.Session.Trace
import Kaleidoscope.Proofs.Token.Joining

/-! Runs that go on after errors. Without checks of calls a run goes through the attempts of its parser, up to
the end of the input or to the error limit. A semicolon on a line of its own cuts a program in two: what stands
above it is reported as if nothing followed, and what stands below as if nothing came before. -/
namespace Kaleidoscope

namespace Outcome

def verdict : Outcome → Verdict
  | .finished => .finished
  | .separator => .separator
  | .accepted entity => .accepted entity
  | .refused diagnostic => .refused diagnostic

def entities (outcomes : List Outcome) : List Entity := outcomes.filterMap (·.verdict.entity?)

def errors (outcomes : List Outcome) : List Diagnostic := outcomes.filterMap (·.verdict.error?)

variable {outcome : Outcome} {outcomes : List Outcome}

theorem verdict_ne_finished (goesOn : outcome ≠ .finished) : outcome.verdict ≠ .finished := by
  cases outcome <;> simp_all [verdict]

theorem entities_append (outcomes others : List Outcome) :
    entities (outcomes ++ others) = entities outcomes ++ entities others :=
  List.filterMap_append

theorem errors_append (outcomes others : List Outcome) :
    errors (outcomes ++ others) = errors outcomes ++ errors others :=
  List.filterMap_append

theorem entities_relocate (move : Location → Location) (outcomes : List Outcome) :
    entities (outcomes.map (relocate move)) = (entities outcomes).map (Entity.relocate move) := by
  rw [entities, entities, List.filterMap_map, List.map_filterMap]
  refine congrArg (List.filterMap · outcomes) (funext fun outcome => ?_)
  cases outcome <;> rfl

theorem errors_relocate (move : Location → Location) (outcomes : List Outcome) :
    errors (outcomes.map (relocate move)) = (errors outcomes).map (Diagnostic.relocate move) := by
  rw [errors, errors, List.filterMap_map, List.map_filterMap]
  refine congrArg (List.filterMap · outcomes) (funext fun outcome => ?_)
  cases outcome <;> rfl

end Outcome

def Parser.ended (p : Parser) : Parser := { p.look with ahead := [] }

theorem Parser.ended_recover (p : Parser) : p.recover.2.ended = p.ended := by
  rcases p.recover_cases with ⟨-, attempt⟩ | ⟨_, _, -, -, attempt⟩ | ⟨_, _, -, attempt⟩ |
    ⟨_, _, _, _, _, -, -, -, -, attempt⟩
  all_goals
    rw [attempt]
    rfl

theorem Parser.recover_ended {p : Parser} (finished : p.recover.1 = .finished) : p.recover.2 = p.ended := by
  rcases p.recover_cases with ⟨nothing, attempt⟩ | ⟨_, _, -, -, attempt⟩ | ⟨_, _, -, attempt⟩ |
    ⟨_, _, _, _, _, -, -, -, -, attempt⟩
  all_goals rw [attempt] at finished ⊢
  · rw [ended, ← nothing]
    rfl
  all_goals cases finished

namespace Session

variable {s next : Session} {step : Step} {allowed : Nat}

theorem step_unchecked (off : s.options.checkCalls = false) :
    s.step.1.verdict = s.parser.recover.1.verdict ∧
      s.step.2 = { s with
        parser := s.parser.recover.2
        latest := s.parser.recover.1.verdict.entity?.toList ++ s.latest } := by
  have progress := s.parser.nextEntity_progress
  rcases attempt : s.parser.nextEntity with ⟨outcome, p⟩
  rw [attempt] at progress
  simp only [Session.step, Parser.recover, attempt]
  cases outcome with
  | finished | separator => exact ⟨rfl, rfl⟩
  | accepted entity => simp [judge, off, Outcome.verdict, Outcome.left]
  | refused diagnostic =>
    have started : p.started = true := progress.1
    simp [Outcome.verdict, Outcome.left, Parser.advance, started, Verdict.entity?]

theorem step_unchecked_cases (off : s.options.checkCalls = false) (taking : s.step = (step, next)) :
    (step.verdict = .finished ∧ s.parser.attempts = [] ∧ next = { s with parser := s.parser.ended }) ∨
    ∃ outcome p, step.verdict ≠ .finished ∧ step.verdict = outcome.verdict ∧
      s.parser.attempts = outcome :: p.attempts ∧ p.ended = s.parser.ended ∧
        next = { s with parser := p, latest := outcome.verdict.entity?.toList ++ s.latest } := by
  obtain ⟨verdict, reached⟩ := s.step_unchecked off
  rw [taking] at verdict reached
  simp only at verdict reached
  by_cases finished : s.parser.recover.1 = .finished
  · rw [finished] at verdict reached
    rw [Parser.recover_ended finished] at reached
    exact .inl ⟨verdict, Parser.attempts_finished finished, reached⟩
  · have goesOn := Outcome.verdict_ne_finished finished
    exact .inr ⟨_, s.parser.recover.2, verdict ▸ goesOn, verdict, Parser.attempts_more finished,
      s.parser.ended_recover, reached⟩

theorem trace_unchecked (off : s.options.checkCalls = false) :
    s.trace.filterMap (·.verdict.error?) = Outcome.errors s.parser.attempts ∧
      s.trace.filterMap (·.verdict.entity?) = Outcome.entities s.parser.attempts ∧
      s.exhausted.parser = s.parser.ended := by
  induction s using trace_induction with
  | ended s step next taking ended =>
    rw [trace_ended taking ended, exhausted_ended taking ended]
    obtain ⟨-, none, rfl⟩ | ⟨_, _, goesOn, -⟩ := step_unchecked_cases off taking
    · rw [none]
      exact ⟨by simp [ended, Verdict.error?, Outcome.errors], by simp [ended, Verdict.entity?, Outcome.entities], rfl⟩
    · exact absurd ended goesOn
  | more s step next taking goesOn ih =>
    rw [trace_more taking goesOn, exhausted_more taking goesOn]
    obtain ⟨ended, -⟩ | ⟨outcome, p, -, verdict, attempts, ended, rfl⟩ := step_unchecked_cases off taking
    · exact absurd ended goesOn
    · obtain ⟨errors, entities, last⟩ := ih off
      rw [Outcome.errors, Outcome.entities, attempts, List.filterMap_cons, List.filterMap_cons, List.filterMap_cons,
        List.filterMap_cons, errors, entities, verdict]
      exact ⟨rfl, rfl, last.trans ended⟩

end Session

/-- Without checks of calls a program is reported as the attempts to read it went, unless their errors reach
the limit. -/
theorem parseProgram_unchecked {options : Options} (off : options.checkCalls = false) (file text : String) :
    let outcomes := (Parser.ofText options.table standardNesting file text).attempts
    let report := parseProgram options file text
    (report.findings.errors.length < options.errorLimit ↔
        (Outcome.errors outcomes).length < options.errorLimit) ∧
      ((Outcome.errors outcomes).length < options.errorLimit → report = ⟨Outcome.entities outcomes,
        ⟨Outcome.errors outcomes, (tokenize file text).tokens.filterMap Token.warning?⟩, false⟩) := by
  intro outcomes report
  let start := Session.start options file text
  obtain ⟨errors, entities, last⟩ := start.trace_unchecked off
  have stopped : start.run.1.stopped = true ↔ options.errorLimit ≤ (Outcome.errors outcomes).length := by
    rw [start.run_eq_cut.2.1, Step.countP_fails, errors]
    rfl
  have through (few : (Outcome.errors outcomes).length < options.errorLimit) :
      report = ⟨Outcome.entities outcomes,
        ⟨Outcome.errors outcomes, (tokenize file text).tokens.filterMap Token.warning?⟩, false⟩ := by
    have unstopped := Bool.eq_false_iff.mpr (mt stopped.mp (Nat.not_le.mpr few))
    have reported := Session.report_of_unstopped (s := start) rfl unstopped
    have warnings : start.parser.ended.warnings = (tokenize file text).tokens.filterMap Token.warning? :=
      congrArg (List.filterMap Token.warning?) (completeBy_final file text)
    rwa [errors, entities, last, warnings] at reported
  refine ⟨⟨fun fewer => ?_, fun few => through few ▸ few⟩, through⟩
  -- A run that stops reports one error more than the limit allows.
  apply Nat.lt_of_not_le
  intro many
  have found : start.run.1.errors.length = options.errorLimit := by
    rw [start.run_errors, errors, List.length_take]
    exact Nat.min_eq_left many
  have told : report.findings.errors = start.run.1.errors ++ [Report.tooMany start.run.2.options.errorLimit] := by
    simp only [report, parseProgram, Report.ofRun, start, stopped.mpr many, if_true]
  rw [told, List.length_append, found] at fewer
  exact absurd fewer (Nat.not_lt.mpr (Nat.le_add_right _ _))

def Token.relocate (move : Location → Location) (token : Token) : Token :=
  { token with location := move token.location }

/-- A text below a bar is read from the tokens it has alone, moved down. -/
theorem relocates_below (table : OperatorTable) (nesting : Int) (file text : String) (above : Window)
    {q : Parser} (sameTable : q.table = table) (sameNesting : q.nesting = nesting)
    (final : q.sequence.final = (tokenize file text).final.below above)
    (ahead : q.ahead = (tokenize file text).tokens.map (Token.below above)) :
    Parser.Relocates (Location.lower above.line) (Token.below above)
      (Parser.ofText table nesting file text) q where
  moves := ⟨fun _ => rfl, fun _ => rfl⟩
  table := sameTable
  nesting := sameNesting
  final := final
  ahead := ahead
  quoted := List.forall_mem_cons.mpr
    ⟨sourceLine?_final_below above file text, fun _ member => sourceLine?_below above member⟩

/-- The attempts on a text cut by a bar are those on its parts. -/
theorem attempts_joined (table : OperatorTable) (nesting : Int) (file first second : String) :
    (Parser.ofText table nesting file (first ++ "\n;\n" ++ second)).attempts =
      (Parser.ofText table nesting file (first ++ "\n;")).attempts ++
        (Parser.ofText table nesting file second).attempts.map
          (Outcome.relocate (Location.lower (2 + first.toList.count '\n'))) := by
  obtain ⟨front, bar, semicolon, quoted, before, whole, final⟩ := tokenize_bar file first second
  have alike : bar.Alike { bar with window := (Window.behindBar first).read '\n' } := ⟨rfl, rfl, quoted⟩
  let p := Parser.ofText table nesting file (first ++ "\n;")
  let q := Parser.ofText table nesting file (first ++ "\n;\n" ++ second)
  obtain ⟨outcomes, upper, both⟩ := Parser.attempts_bar (p := p) (q := q) rfl rfl semicolon alike before whole
  have lower := relocates_below table nesting file second (Window.behindBar first)
    (q := { q.look with ahead := _ }) rfl rfl final rfl
  have nothing : ({ p.look with ahead := [] } : Parser).attempts = [] :=
    Parser.attempts_finished (congrArg Prod.fst (Parser.recover_nil rfl))
  rw [both, lower.attempts, upper, nothing, List.append_nil, Window.line_behindBar]

theorem warnings_joined (file first second : String) :
    (tokenize file (first ++ "\n;\n" ++ second)).tokens.filterMap Token.warning? =
      (tokenize file (first ++ "\n;")).tokens.filterMap Token.warning? ++
        ((tokenize file second).tokens.map
          (Token.relocate (Location.lower (2 + first.toList.count '\n')))).filterMap Token.warning? := by
  obtain ⟨front, bar, semicolon, -, before, whole, -⟩ := tokenize_bar file first second
  have silent (window : Window) : ({ bar with window := window } : Token).warning? = none := by
    simp [Token.warning?, Token.complaint?, semicolon]
  rw [before, whole, List.filterMap_append, List.filterMap_append, List.filterMap_cons_none (silent _),
    List.filterMap_cons_none (silent bar.window), List.filterMap_nil, List.append_nil, List.filterMap_map,
    List.filterMap_map, ← Window.line_behindBar]
  rfl

/-- A semicolon on a line of its own is a barrier to errors. Without checks of calls, and with fewer errors in
the parts than the limit, what is reported of a text cut by one is what is reported of the part up to it and,
after that, what is reported of the part below it, further down by the lines above. -/
theorem parseProgram_cut_at_semicolon {options : Options} (off : options.checkCalls = false)
    (file first second : String) :
    let before := parseProgram options file (first ++ "\n;")
    let behind := parseProgram options file second
    let whole := parseProgram options file (first ++ "\n;\n" ++ second)
    let lower := Location.lower (2 + first.toList.count '\n')
    let tokens := (tokenize file second).tokens
    let errors := before.findings.errors.length + behind.findings.errors.length
    (whole.findings.errors.length < options.errorLimit ↔ errors < options.errorLimit) ∧
      (errors < options.errorLimit →
        whole.entities = before.entities ++ behind.entities.map (Entity.relocate lower) ∧
        whole.findings.errors = before.findings.errors ++ behind.findings.errors.map (Diagnostic.relocate lower) ∧
        behind.findings.warnings = tokens.filterMap Token.warning? ∧
        whole.findings.warnings =
          before.findings.warnings ++ (tokens.map (Token.relocate lower)).filterMap Token.warning? ∧
        whole.stopped = false) := by
  intro before behind whole lower tokens errors
  obtain ⟨limit, report⟩ := parseProgram_unchecked off file (first ++ "\n;")
  obtain ⟨limit', report'⟩ := parseProgram_unchecked off file second
  obtain ⟨limit'', report''⟩ := parseProgram_unchecked off file (first ++ "\n;\n" ++ second)
  rw [attempts_joined, Outcome.errors_append, Outcome.errors_relocate] at limit'' report''
  rw [List.length_append, List.length_map] at limit'' report''
  rw [Outcome.entities_append, Outcome.entities_relocate, warnings_joined] at report''
  generalize (Parser.ofText options.table standardNesting file (first ++ "\n;")).attempts = upper at *
  generalize (Parser.ofText options.table standardNesting file second).attempts = below at *
  have counted (few : before.findings.errors.length < options.errorLimit)
      (few' : behind.findings.errors.length < options.errorLimit) :
      errors = (Outcome.errors upper).length + (Outcome.errors below).length := by
    have first := congrArg (·.findings.errors.length) (report (limit.mp few))
    have second := congrArg (·.findings.errors.length) (report' (limit'.mp few'))
    exact congrArg₂ (· + ·) first second
  have total : errors < options.errorLimit ↔
      (Outcome.errors upper).length + (Outcome.errors below).length < options.errorLimit := by
    constructor
    · intro few
      rwa [← counted (by omega) (by omega)]
    · intro few
      rwa [counted (limit.mpr (by omega)) (limit'.mpr (by omega))]
  refine ⟨limit''.trans total.symm, fun few => ?_⟩
  have few := total.mp few
  have first := report (by omega)
  have second := report' (by omega)
  have both := report'' few
  simp only [whole, before, behind, both, first, second, tokens, lower]
  simp

/-- A definition that breaks off above the bar, and below it a declaration, a misspelt number and an unclosed
parenthesis, whose error stands on the second line of its part. -/
theorem parseProgram_cut_at_semicolon_unclosed :
    let first := "g(1)\ndef f(x"
    let second := "extern g(y)\n1.2.3 + (2"
    let before := parseProgram .standard "cut" (first ++ "\n;")
    let behind := parseProgram .standard "cut" second
    let whole := parseProgram .standard "cut" (first ++ "\n;\n" ++ second)
    let lower := Location.lower 3
    Options.standard.checkCalls = false ∧
      before.findings.errors.map (·.location?) = [some ⟨"cut", 3, 1⟩] ∧
      behind.findings.errors.map (·.location?) = [some ⟨"cut", 2, 11⟩] ∧
      whole.findings.errors = before.findings.errors ++ behind.findings.errors.map (Diagnostic.relocate lower) ∧
      whole.entities = before.entities ++ behind.entities.map (Entity.relocate lower) ∧
      whole.findings.warnings = ["cut:5:1: warning: malformed number '1.2.3' read as 1.2"] := by
  intro first second before behind whole lower
  have off : Options.standard.checkCalls = false := rfl
  have above : before.findings.errors.map (·.location?) = [some ⟨"cut", 3, 1⟩] := by decide +kernel
  have below : behind.findings.errors.map (·.location?) = [some ⟨"cut", 2, 11⟩] := by decide +kernel
  have few : before.findings.errors.length + behind.findings.errors.length < 100 := by
    have one := congrArg List.length above
    have other := congrArg List.length below
    simp only [List.length_map, List.length_cons, List.length_nil] at one other
    omega
  have lines : 2 + first.toList.count '\n' = 3 := by decide +kernel
  obtain ⟨entities, errors, -, warnings, -⟩ := (parseProgram_cut_at_semicolon off "cut" first second).2 few
  rw [lines] at entities errors
  refine ⟨off, above, below, errors, entities, warnings.trans ?_⟩
  decide +kernel

end Kaleidoscope
