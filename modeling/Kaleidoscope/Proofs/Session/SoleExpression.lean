import Kaleidoscope.Proofs.Grammar.Locality
import Kaleidoscope.Proofs.Session.Trace
import Kaleidoscope.Proofs.Tree.Provenance

/-! Texts that are one expression. A text is read as a single expression just when the program it makes is that
expression and nothing else, not even a semicolon; and where an expression cannot be read to its end, the program has
its first error. -/
namespace Kaleidoscope

open Grammar

namespace Parser

variable {p q : Parser} {e : Expr} {rest : List Token}

theorem expression_cases (p : Parser) :
    (∃ e rest, Takes p.table p.levels (.expression e) p.ahead rest ∧
      p.expression = (.ok e, { p.look with ahead := rest })) ∨
    ∃ expected stuck q, Sticks p.table .expression p.levels p.ahead expected stuck ∧
      q = { p.look with ahead := stuck } ∧ p.expression = (.error (q.diagnose expected), q) := by
  rcases (Grammar.expression p.table p.levels p.ahead).yields_or_fails with
    ⟨e, rest, yields⟩ | ⟨expected, stuck, fails⟩
  · exact .inl ⟨e, rest, yields_expression_iff.mp yields, read_eq_ok_iff.mpr ⟨rest, yields, rfl⟩⟩
  · refine .inr ⟨expected, stuck, _, fails_expression_iff.mp fails, rfl, ?_⟩
    obtain ⟨within, stopped⟩ := fails
    rw [expression, read, stopped]
    rfl

end Parser

variable {table : OperatorTable} {options : Options} {file text : String} {e : Expr} {diagnostic : Diagnostic}
  {items : List (Option Entity)}

theorem Grammar.Takes.unique {levels : Nat} {e' : Expr} {tokens rest rest' : List Token}
    (h : Takes table levels (.expression e) tokens rest) (h' : Takes table levels (.expression e') tokens rest') :
    e = e' ∧ rest = rest' :=
  (yields_expression_iff.mpr h).unique (yields_expression_iff.mpr h')

theorem parseExpression_eq_ok_iff : parseExpression table file text = .ok e ↔
    Takes table standardNesting.toNat (.expression e) (tokenize file text).tokens [] := by
  rcases (Parser.ofText table standardNesting file text).expression_cases with
    ⟨value, rest, takes, read⟩ | ⟨expected, stuck, q, sticks, -, read⟩
  all_goals rw [parseExpression, read]
  · cases rest with
    | nil =>
      constructor
      · rintro ⟨⟩
        exact takes
      · intro whole
        rw [(takes.unique whole).1]
        rfl
    | cons token rest =>
      refine ⟨nofun, fun whole => ?_⟩
      cases (takes.unique whole).2
  · refine ⟨nofun, fun whole => ?_⟩
    exact absurd (fails_expression_iff.mpr sticks) (yields_expression_iff.mpr whole).not_fails

/-- An expression that is not read to its end is refused as the first entity would be, unless a keyword starts
that. -/
theorem nextEntity_of_parseExpression {first : Token} {behind : List Token}
    (tokens : (tokenize file text).tokens = first :: behind) (bare : IsBare (first :: behind))
    (other : first.isChar ';' = false) (fails : parseExpression table file text = .error diagnostic)
    (early : diagnostic.message ≠ "unexpected input after expression") :
    ∃ q, (Parser.ofText table standardNesting file text).nextEntity = (.refused diagnostic, q) := by
  obtain ⟨p, fresh⟩ : ∃ p, p = Parser.ofText table standardNesting file text := ⟨_, rfl⟩
  have ahead : p.ahead = first :: behind := by rw [fresh]; exact tokens
  rw [parseExpression, ← fresh] at fails
  rw [← fresh]
  rcases p.expression_cases with ⟨value, rest, -, read⟩ | ⟨expected, stuck, q, sticks, reached, read⟩
  all_goals rw [read] at fails
  · cases rest with
    | nil => cases fails
    | cons token rest =>
      cases fails
      exact absurd rfl early
  · cases fails
    have refused := SticksEntity.inExpression (ahead ▸ bare) sticks
    exact ⟨q, Parser.nextEntity_refused ahead other (fails_entity_iff.mpr refused) reached⟩

theorem head?_errors_of_refused {q : Parser}
    (attempt : (Parser.ofText options.table standardNesting file text).nextEntity = (.refused diagnostic, q)) :
    (parseProgram options file text).findings.errors.head? = some diagnostic := by
  obtain ⟨s, started⟩ : ∃ s, s = Session.start options file text := ⟨_, rfl⟩
  have report : parseProgram options file text = s.report := by rw [started]; rfl
  have attempt : s.parser.nextEntity = (.refused diagnostic, q) := by rw [started]; exact attempt
  obtain ⟨step, next, taking, verdict⟩ :
      ∃ step next, s.step = (step, next) ∧ step.verdict = .refused diagnostic := by
    rw [Session.step, attempt]
    exact ⟨_, _, rfl, rfl⟩
  have errors : s.trace.filterMap (·.verdict.error?) = diagnostic :: next.trace.filterMap (·.verdict.error?) := by
    rw [Session.trace_more taking (by simp [verdict])]
    exact List.filterMap_cons_some (by rw [verdict]; rfl)
  obtain ⟨allowed, limit⟩ := Nat.exists_eq_succ_of_ne_zero (Nat.ne_of_gt s.options.errorLimit_pos)
  rw [report, Session.report, Report.ofRun, Session.run_errors, errors, limit]
  rfl

theorem Grammar.Program.eq_nil {alone : List Token → Prop} {tokens : List Token}
    (program : Program table alone tokens items) (free : FreeOf ';' tokens) (nothing : items.filterMap id = []) :
    tokens = [] := by
  cases program with
  | empty => rfl
  | separator semicolon _ => exact absurd semicolon (freeOf_cons_iff.mp free).1
  | entity _ _ => simp at nothing

/-- A program without a semicolon that makes one bare expression is nothing else. -/
theorem takes_of_outcomes {p : Parser} {f : Function} (free : FreeOf ';' p.ahead)
    (scanned : ∀ token ∈ p.ahead, token.lexeme.Scanned)
    (outcomes : p.outcomes = items.map .ofItem ++ [.finished])
    (one : items.filterMap id = [.function f]) (anonymous : f.isAnonymous = true) :
    Takes p.table p.levels (.expression f.body) p.ahead [] := by
  rcases p.nextEntity_cases with ⟨nothing, -⟩ | ⟨token, rest, front, semicolon, -⟩ |
    ⟨entity, rest, yields, attempt⟩ | ⟨_, _, _, _, q, -, -, -, -, attempt⟩
  · rw [Parser.outcomes_finished nothing, Outcome.finished_eq_map_append_iff] at outcomes
    simp [outcomes] at one
  · exact absurd semicolon (free token (by simp [front]))
  · obtain ⟨-, depth, within, reads⟩ := yields_entity_iff.mp yields
    rw [Parser.outcomes_accepted attempt, ← Outcome.ofItem, Outcome.cons_eq_map_append_iff] at outcomes
    obtain ⟨later, rfl, outcomes⟩ := outcomes
    obtain ⟨rfl, nothing⟩ : entity = .function f ∧ later.filterMap id = [] := by simpa using one
    obtain ⟨used, split, -⟩ := reads.split
    have behind : FreeOf ';' rest := (freeOf_append_iff.mp (split ▸ free)).2
    obtain rfl := (Parser.program_of_outcomes outcomes).eq_nil behind nothing
    exact ⟨by simp [Phrase.Ends], depth, within, (reads.bare_of_anonymous scanned anonymous).2⟩
  · rw [Parser.outcomes_refused attempt] at outcomes
    exact absurd outcomes (Outcome.refused_ne_map_append _ _)

/-- A text is read as a single expression just when, as a program, it makes one bare expression with that body and has
no semicolon. If reading an expression fails before its end, at a text that starts with neither a keyword nor a
semicolon, the program fails there first and says the same. -/
theorem sole_expression_of_program (options : Options) (file text : String) :
    let tokens := (tokenize file text).tokens
    let report := parseProgram options file text
    (options.checkCalls = false → ∀ e, parseExpression options.table file text = .ok e ↔
      report.isOk = true ∧
        (∃ f, report.entities = [.function f] ∧ f.isAnonymous = true ∧ f.body = e) ∧
          ∀ token ∈ tokens, token.lexeme ≠ .character ';') ∧
    ∀ first ∈ tokens.head?, first.lexeme ≠ .defKeyword → first.lexeme ≠ .externKeyword →
      first.lexeme ≠ .character ';' → ∀ diagnostic,
        parseExpression options.table file text = .error diagnostic →
          diagnostic.message ≠ "unexpected input after expression" →
            report.findings.errors.head? = some diagnostic := by
  intro tokens report
  refine ⟨fun unchecked e => ?_, ?_⟩
  · rw [parseExpression_eq_ok_iff]
    constructor
    · rintro ⟨ends, depth, within, reads⟩
      obtain ⟨used, split, free, -⟩ := reads.split
      rw [List.append_nil] at split
      have first := Parser.outcomes_of_entity (p := Parser.ofText options.table standardNesting file text)
        (.expression reads) within (by simp)
      have outcomes : (Parser.ofText options.table standardNesting file text).outcomes =
          [some (.function (.anonymous e))].map .ofItem ++ [.finished] := by
        rw [first, Parser.outcomes_finished rfl]
        rfl
      obtain ⟨ok, entities⟩ := parseProgram_isOk_iff.mpr ⟨_, outcomes, by simp [Passes, unchecked], rfl⟩
      exact ⟨ok, ⟨.anonymous e, entities, rfl, rfl⟩, by rwa [← split] at free⟩
    · rintro ⟨ok, ⟨f, entities, anonymous, rfl⟩, free⟩
      obtain ⟨items, outcomes, -, one⟩ := parseProgram_isOk_iff.mp ⟨ok, entities⟩
      exact takes_of_outcomes (p := .ofText options.table standardNesting file text) free (scanned_tokenize file text)
        outcomes one anonymous
  · intro first starts notDef notExtern notSemicolon diagnostic fails early
    obtain ⟨behind, front⟩ := List.head?_eq_some_iff.mp starts
    have bare : IsBare (first :: behind) := by
      rintro _ ⟨⟩
      exact ⟨notDef, notExtern⟩
    have other : first.isChar ';' = false := by
      rw [← Bool.not_eq_true, Token.isChar_iff]
      exact notSemicolon
    obtain ⟨q, attempt⟩ := nextEntity_of_parseExpression front bare other fails early
    exact head?_errors_of_refused attempt

/-- A call with a product for its argument, and one with a group that is not closed. -/
theorem sole_expression_of_program_calls :
    let whole := "f(x, y*2)"
    let broken := "f(x, (y 2)"
    Options.standard.checkCalls = false ∧
      (∃ e f, parseExpression .standard "whole" whole = .ok e ∧
        (parseProgram .standard "whole" whole).entities = [.function f] ∧ f.isAnonymous = true ∧ f.body = e) ∧
      ∃ first ∈ (tokenize "broken" broken).tokens.head?, first.lexeme ≠ .defKeyword ∧
        first.lexeme ≠ .externKeyword ∧ first.lexeme ≠ .character ';' ∧
          ∃ diagnostic, parseExpression .standard "broken" broken = .error diagnostic ∧
            diagnostic.message ≠ "unexpected input after expression" ∧
              (parseProgram .standard "broken" broken).findings.errors.head? = some diagnostic := by
  intro whole broken
  have unchecked : Options.standard.checkCalls = false := rfl
  have reads : (parseExpression .standard "whole" whole).isOk = true := by decide +kernel
  have starts : (tokenize "broken" broken).tokens.head?.map (·.lexeme) = some (.identifier "f") := by decide +kernel
  have wording : (match parseExpression .standard "broken" broken with
      | .ok _ => ""
      | .error diagnostic => diagnostic.message) = "expected ')'" := by decide +kernel
  refine ⟨unchecked, ?_, ?_⟩
  · cases read : parseExpression .standard "whole" whole with
    | error diagnostic => simp [read, Except.isOk, Except.toBool] at reads
    | ok e =>
      obtain ⟨-, ⟨f, entities, anonymous, body⟩, -⟩ :=
        ((sole_expression_of_program .standard "whole" whole).1 unchecked e).mp read
      exact ⟨e, f, rfl, entities, anonymous, body⟩
  · obtain ⟨first, head, lexeme⟩ := Option.map_eq_some_iff.mp starts
    refine ⟨first, head, by simp [lexeme], by simp [lexeme], by simp [lexeme], ?_⟩
    cases fails : parseExpression .standard "broken" broken with
    | ok e => simp [fails] at wording
    | error diagnostic =>
      have early : diagnostic.message ≠ "unexpected input after expression" := by
        simp only [fails] at wording
        simp [wording]
      exact ⟨diagnostic, rfl, early, (sole_expression_of_program .standard "broken" broken).2 first head
        (by simp [lexeme]) (by simp [lexeme]) (by simp [lexeme]) diagnostic fails early⟩

end Kaleidoscope
