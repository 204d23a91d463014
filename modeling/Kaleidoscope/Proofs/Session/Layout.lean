import Kaleidoscope.Proofs.Session.Calls
import Kaleidoscope.Proofs.Session.Recovery
import Kaleidoscope.Proofs.Session.Trace
import Kaleidoscope.Proofs.Token.Layout

/-! Sessions on the same lexemes. Two sessions whose tokens say the same take the same steps, whatever the
places are where the tokens stand, and so layout shows in nothing but locations and quoted lines. -/
namespace Kaleidoscope

namespace Expr

mutual

@[simp] theorem bare_relocate (move : Location → Location) : (e : Expr) → (e.relocate move).bare = e.bare
  | .number .. | .var .. => rfl
  | .binary _ lhs rhs _ => by simp [relocate, bare, bare_relocate move lhs, bare_relocate move rhs]
  | .call _ args _ => by simp [relocate, bare, bareAll_relocateAll move args]

theorem bareAll_relocateAll (move : Location → Location) :
    (args : List Expr) → bareAll (relocateAll move args) = bareAll args
  | [] => rfl
  | e :: rest => by simp [relocateAll, bareAll, bare_relocate move e, bareAll_relocateAll move rest]

end

end Expr

@[simp] theorem Entity.bare_relocate (move : Location → Location) (entity : Entity) :
    (entity.relocate move).bare = entity.bare := by
  cases entity <;> simp [relocate, bare, Prototype.relocate, Prototype.bare, Function.relocate, Function.bare]

namespace Verdict

def bare : Verdict → Verdict
  | .finished => .finished
  | .separator => .separator
  | .accepted entity => .accepted entity.bare
  | .rejected entity diagnostic => .rejected entity.bare diagnostic.bare
  | .refused diagnostic => .refused diagnostic.bare

variable {verdict : Verdict}

theorem entity?_bare (verdict : Verdict) : verdict.bare.entity? = verdict.entity?.map Entity.bare := by
  cases verdict <;> rfl

theorem error?_bare (verdict : Verdict) : verdict.bare.error? = verdict.error?.map Diagnostic.bare := by
  cases verdict <;> rfl

theorem bare_eq_finished_iff : verdict.bare = .finished ↔ verdict = .finished := by
  cases verdict <;> simp [bare]

theorem bare_judged (entity : Entity) (result : Option Diagnostic) :
    (judged entity result).bare = judged entity.bare (result.map Diagnostic.bare) := by
  cases result <;> rfl

end Verdict

def Lexeme.alone (lexeme : Lexeme) : Token := ⟨lexeme, ⟨"", 0, 0⟩, .start, none⟩

namespace Parser

/-- The parser on tokens that have nothing but their lexemes. -/
def blank (p : Parser) : Parser :=
  { p with sequence := ⟨[], p.sequence.final.lexeme.alone⟩, ahead := (p.ahead.map (·.lexeme)).map Lexeme.alone }

/-- The parsers go through tokens that say the same. -/
structure Alike (p q : Parser) : Prop where
  table : q.table = p.table
  nesting : q.nesting = p.nesting
  final : q.sequence.final.lexeme = p.sequence.final.lexeme
  ahead : q.ahead.map (·.lexeme) = p.ahead.map (·.lexeme)

variable {p q : Parser} {move : Location → Location} {f : Token → Token}

theorem Alike.echoes_blank (h : Alike p q) :
    Echoes (fun _ => ⟨"", 0, 0⟩) (fun token => token.lexeme.alone) q p.blank where
  moves := ⟨fun _ => rfl, fun _ => rfl⟩
  table := h.table.symm
  nesting := h.nesting.symm
  final := congrArg Lexeme.alone h.final.symm
  ahead := by
    simp only [blank, ← h.ahead, List.map_map]
    rfl

theorem Echoes.alike (h : Echoes move f p q) : Alike p q where
  table := h.table
  nesting := h.nesting
  final := by rw [h.final, h.moves.lexeme]
  ahead := by simp [h.ahead, h.moves.lexeme, Function.comp_def]

theorem Alike.refl (p : Parser) : Alike p p := ⟨rfl, rfl, rfl, rfl⟩

theorem Alike.trans {r : Parser} (h : Alike p q) (h' : Alike q r) : Alike p r :=
  ⟨h'.table.trans h.table, h'.nesting.trans h.nesting, h'.final.trans h.final, h'.ahead.trans h.ahead⟩

theorem Alike.symm (h : Alike p q) : Alike q p :=
  ⟨h.table.symm, h.nesting.symm, h.final.symm, h.ahead.symm⟩

theorem Echoes.bare_nextEntity (h : Echoes move f p q) :
    q.nextEntity.1.verdict.bare = p.nextEntity.1.verdict.bare := by
  obtain ⟨echoes, same | ⟨expected, refused, refused'⟩⟩ := h.nextEntity
  · rw [same]
    cases p.nextEntity.1 <;> simp [Outcome.relocate, Outcome.verdict, Verdict.bare, Diagnostic.relocate, Diagnostic.bare]
  · rw [refused, refused']
    simp [Outcome.verdict, Verdict.bare, Diagnostic.bare, diagnose, echoes.nesting, echoes.current, Token.description,
      h.moves.lexeme]

theorem Alike.nextEntity (h : Alike p q) :
    q.nextEntity.1.verdict.bare = p.nextEntity.1.verdict.bare ∧ Alike p.nextEntity.2 q.nextEntity.2 := by
  have first := (Alike.refl p).echoes_blank
  have second := h.echoes_blank
  exact ⟨second.bare_nextEntity.symm.trans first.bare_nextEntity,
    first.nextEntity.1.alike.trans second.nextEntity.1.alike.symm⟩

theorem Alike.advance (h : Alike p q) (started : p.started = true) (started' : q.started = true) :
    Alike p.advance q.advance := by
  rw [Parser.advance, if_pos started, Parser.advance, if_pos started']
  refine ⟨h.table, h.nesting, h.final, ?_⟩
  simp only [List.map_tail, h.ahead]

end Parser

namespace Session

/-- The sessions have the same options, go through tokens that say the same, and know the same functions. -/
structure Alike (s t : Session) : Prop where
  options : t.options = s.options
  parser : s.parser.Alike t.parser
  known : t.known.bare = s.known.bare

variable {s t next next' : Session} {first first' : Step}

theorem Alike.judge (h : s.Alike t) {entity entity' : Entity} (same : entity'.bare = entity.bare) :
    (t.judge entity').1.bare = (s.judge entity).1.bare ∧ (t.judge entity').2.bare = (s.judge entity).2.bare := by
  by_cases checks : s.options.checkCalls = true
  · have result := s.known.checked_bare entity
    rw [← same, ← h.known, KnownFunctions.checked_bare, Prod.mk.injEq] at result
    rw [judge_of_checks checks, judge_of_checks (h.options ▸ checks), Verdict.bare_judged, Verdict.bare_judged, same,
      result.2]
    exact ⟨rfl, result.1⟩
  · rw [Bool.not_eq_true] at checks
    rw [judge_of_no_checks checks, judge_of_no_checks (h.options ▸ checks)]
    exact ⟨congrArg Verdict.accepted same, h.known⟩

theorem Alike.step (h : s.Alike t) (taking : s.step = (first, next)) (taking' : t.step = (first', next')) :
    first'.verdict.bare = first.verdict.bare ∧ next.Alike next' := by
  obtain ⟨same, parser⟩ := h.parser.nextEntity
  have started := s.parser.nextEntity_progress.1
  have started' := t.parser.nextEntity_progress.1
  rcases attempt : s.parser.nextEntity with ⟨outcome, p⟩
  rcases attempt' : t.parser.nextEntity with ⟨outcome', q⟩
  rw [attempt, attempt'] at same parser
  rw [attempt] at started
  rw [attempt'] at started'
  simp only [Session.step, attempt] at taking
  simp only [Session.step, attempt'] at taking'
  cases outcome <;> cases outcome' <;>
    simp only [Outcome.verdict, Verdict.bare, Verdict.accepted.injEq, Verdict.refused.injEq, reduceCtorEq] at same
  · cases taking
    cases taking'
    exact ⟨rfl, h.options, parser, h.known⟩
  · cases taking
    cases taking'
    exact ⟨rfl, h.options, parser, h.known⟩
  · obtain ⟨verdict, known⟩ := h.judge same
    cases taking
    cases taking'
    exact ⟨verdict, h.options, parser, known⟩
  · cases taking
    cases taking'
    exact ⟨congrArg Verdict.refused same, h.options, parser.advance started started', h.known⟩

theorem Alike.trace (h : s.Alike t) : t.trace.map (·.verdict.bare) = s.trace.map (·.verdict.bare) := by
  induction s using trace_induction generalizing t with
  | ended s step next taking ended =>
    obtain ⟨same, -⟩ := h.step taking rfl
    have ended' := Verdict.bare_eq_finished_iff.mp (same.trans (Verdict.bare_eq_finished_iff.mpr ended))
    rw [trace_ended taking ended, trace_ended rfl ended', List.map_singleton, List.map_singleton, same]
  | more s step next taking goesOn ih =>
    obtain ⟨same, alike⟩ := h.step taking rfl
    have goesOn' := mt (fun ended => Verdict.bare_eq_finished_iff.mp (same ▸ Verdict.bare_eq_finished_iff.mpr ended)) goesOn
    rw [trace_more taking goesOn, trace_more rfl goesOn', List.map_cons, List.map_cons, same, ih alike]

/-- They run to the same point, and what their runs do says the same. -/
theorem Alike.run (h : s.Alike t) :
    t.run.1.steps.map (·.verdict.bare) = s.run.1.steps.map (·.verdict.bare) ∧ t.run.1.stopped = s.run.1.stopped := by
  have fails : Step.fails = (fun verdict : Verdict => verdict.error?.isSome) ∘ (·.verdict.bare) := by
    funext step
    simp [Step.fails, Verdict.error?_bare]
  obtain ⟨steps, stopped, -⟩ := s.run_eq_cut
  obtain ⟨steps', stopped', -⟩ := t.run_eq_cut
  constructor
  · rw [steps, steps', fails, ← Cut.upTo_map, ← Cut.upTo_map, h.trace, h.options]
  · rw [fails, ← List.countP_map] at stopped stopped'
    rw [h.trace, h.options, ← stopped] at stopped'
    exact Bool.eq_iff_iff.mpr stopped'

theorem Alike.report (h : s.Alike t) (fresh : s.latest = []) (fresh' : t.latest = []) :
    t.report.entities.map Entity.bare = s.report.entities.map Entity.bare ∧
      t.report.stopped = s.report.stopped ∧
      t.report.findings.errors.map (·.problem) = s.report.findings.errors.map (·.problem) := by
  obtain ⟨said, stopped⟩ := h.run
  have entities (s : Session) (fresh : s.latest = []) : s.report.entities.map Entity.bare =
      (s.run.1.steps.map (·.verdict.bare)).filterMap Verdict.entity? := by
    obtain ⟨-, latest⟩ := s.run_keeps
    simp only [Session.report, Report.ofRun, Session.entities, latest, fresh, List.append_nil, List.reverse_reverse,
      List.filterMap_map, List.map_filterMap, Function.comp_def, Verdict.entity?_bare]
  have errors (s : Session) : s.report.findings.errors.map (·.problem) =
      ((s.run.1.steps.map (·.verdict.bare)).filterMap Verdict.error?).map (·.problem) ++
        if s.run.1.stopped then [(Report.tooMany s.options.errorLimit).problem] else [] := by
    obtain ⟨options, -⟩ := s.run_keeps
    simp only [Session.report, Report.ofRun, Run.errors, options, List.map_append, List.filterMap_map,
      List.map_filterMap, Function.comp_def, Verdict.error?_bare, Option.map_map]
    cases s.run.1.stopped <;> rfl
  refine ⟨?_, stopped, ?_⟩
  · rw [entities s fresh, entities t fresh', said]
  · rw [errors s, errors t, said, stopped, h.options]

end Session

/-- Layout never matters. Blanks, or a comment with the line feed that ends it, may be added at the start of a
text and behind the last character of any token, and the tokens say the same. Texts whose tokens say the same have
the same reports under the same options, apart from where things stand: the same entities, stopped or not, and as
many errors with the same problems in the same order. -/
theorem layout_never_matters (options : Options) (file file' text : String) :
    (∀ pieces offset spacing, LongestMatch text.toList pieces → IsTokenBoundary pieces offset → IsSpacing spacing →
      (tokenize file' (String.ofList (text.toList.take offset ++ spacing ++ text.toList.drop offset))).all.map
        (·.lexeme) = (tokenize file text).all.map (·.lexeme)) ∧
    ∀ other, (tokenize file' other).all.map (·.lexeme) = (tokenize file text).all.map (·.lexeme) →
      let report := parseProgram options file text
      let report' := parseProgram options file' other
      report'.entities.map Entity.bare = report.entities.map Entity.bare ∧
        report'.stopped = report.stopped ∧
        report'.findings.errors.map (·.problem) = report.findings.errors.map (·.problem) := by
  refine ⟨fun pieces offset spacing division boundary separates => ?_, fun other same => ?_⟩
  · exact lexemes_tokenize_spacing file file' division boundary separates
  · simp only [TokenSequence.all, List.map_append] at same
    have before : (tokenize file' other).tokens.map (·.lexeme) = (tokenize file text).tokens.map (·.lexeme) :=
      List.append_cancel_right same
    have alike : (Session.start options file text).Alike (Session.start options file' other) :=
      ⟨rfl, ⟨rfl, rfl, rfl, before⟩, rfl⟩
    exact alike.report rfl rfl

/-- A comment between a name and its argument list, and a program with a call at fault and a stray parenthesis on
one line and on four. -/
theorem layout_never_matters_calls :
    let options : Options := { Options.standard with checkCalls := true }
    let report := parseProgram options "one" "f(1) ) def g(x) g(x)"
    let report' := parseProgram options "four" "f # a call\n(1)\n\n) def g(x) g\n(x)"
    (tokenize "four" "f#\n(1)").all.map (·.lexeme) = (tokenize "one" "f(1)").all.map (·.lexeme) ∧
      report'.entities.map Entity.bare = report.entities.map Entity.bare ∧ report'.stopped = report.stopped ∧
      report'.findings.errors.map (·.problem) = report.findings.errors.map (·.problem) ∧
      report.findings.errors.length = 2 := by
  intro options report report'
  have division : LongestMatch "f(1)".toList [.word 'f' [], .lone '(', .numeral '1' [], .lone ')'] := by
    have closing : LongestMatch [')'] [.lone ')'] := .of_stops (.lone ')') rfl (by simp [Stops]) .done
    have digit : LongestMatch ['1', ')'] [.numeral '1' [], .lone ')'] :=
      .of_stops (.numeral '1' []) ⟨rfl, by simp⟩ (by simp [Stops, Piece.inside, isNumeral]) closing
    have opening : LongestMatch ['(', '1', ')'] [.lone '(', .numeral '1' [], .lone ')'] :=
      .of_stops (.lone '(') rfl (by simp [Stops, Piece.inside]) digit
    have name : LongestMatch ['f', '(', '1', ')'] [.word 'f' [], .lone '(', .numeral '1' [], .lone ')'] :=
      .of_stops (.word 'f' []) ⟨rfl, by simp⟩ (by simp [Stops, Piece.inside]) opening
    exact name
  have inserted := (layout_never_matters options "one" "four" "f(1)").1 _ 1 "#\n".toList division
    (.inr ⟨0, by decide, rfl⟩) (.inr ⟨[], by simp, rfl⟩)
  have reports := (layout_never_matters options "one" "four" "f(1) ) def g(x) g(x)").2
    "f # a call\n(1)\n\n) def g(x) g\n(x)" (by decide +kernel)
  exact ⟨inserted, reports.1, reports.2.1, reports.2.2, by decide +kernel⟩

end Kaleidoscope
