import Kaleidoscope.Proofs.Grammar.Position
import Kaleidoscope.Proofs.Session.Trace
import Kaleidoscope.Proofs.Tree.Provenance

/-! What sessions accept. Whatever errors there are in between, all that occurs in an entity that is accepted stands in
the text as a token of its own. -/
namespace Kaleidoscope

namespace Session

variable {s next : Session} {step : Step}

theorem parser_step (taking : s.step = (step, next)) :
    next.parser.table = s.parser.table ∧ next.parser.ahead <:+ s.parser.ahead := by
  have table := s.parser.elsewhere_nextEntity.1
  have ahead := s.parser.nextEntity_suffix
  rcases attempt : s.parser.nextEntity with ⟨outcome, p⟩
  rw [attempt] at table ahead
  simp only [Session.step, attempt] at taking
  cases outcome <;> cases taking
  case refused => exact ⟨p.elsewhere_advance.1.trans table, p.ahead_advance_suffix.trans ahead⟩
  all_goals exact ⟨table, ahead⟩

theorem accepted_of_step {entity : Entity} (taking : s.step = (step, next))
    (accepted : step.verdict.entity? = some entity) : ∃ p, s.parser.nextEntity = (.accepted entity, p) := by
  rcases attempt : s.parser.nextEntity with ⟨outcome, p⟩
  simp only [Session.step, attempt] at taking
  cases outcome with
  | accepted other =>
    cases taking
    rcases s.judge_cases other with ⟨known, judged, -⟩ | ⟨diagnostic, judged, -⟩
    · rw [judged] at accepted
      cases accepted
      exact ⟨p, rfl⟩
    · rw [judged] at accepted
      cases accepted
  | _ =>
    cases taking
    cases accepted

theorem readable_step {entity : Entity} (taking : s.step = (step, next))
    (scanned : ∀ token ∈ s.parser.ahead, token.lexeme.Scanned) (accepted : step.verdict.entity? = some entity) :
    entity.Within (readable s.parser.table) := by
  obtain ⟨p, attempt⟩ := accepted_of_step taking accepted
  obtain ⟨⟨-, depth, -, reads⟩, -⟩ := Parser.nextEntity_eq_accepted_iff.mp attempt
  exact (reads.within scanned).1

theorem readable_trace (s : Session) (scanned : ∀ token ∈ s.parser.ahead, token.lexeme.Scanned) :
    ∀ step ∈ s.trace, ∀ entity ∈ step.verdict.entity?, entity.Within (readable s.parser.table) := by
  induction s using trace_induction with
  | ended s step next taking ended =>
    rw [trace_ended taking ended, List.forall_mem_singleton]
    exact fun entity accepted => readable_step taking scanned accepted
  | more s step next taking goesOn ih =>
    obtain ⟨table, suffix⟩ := parser_step taking
    rw [trace_more taking goesOn, List.forall_mem_cons, ← table]
    refine ⟨fun entity accepted => table ▸ readable_step taking scanned accepted, ?_⟩
    exact ih fun token member => scanned token (suffix.subset member)

end Session

/-- All that occurs in the entities of a program is readable, even if not all of the text could be read. -/
theorem readable_parseProgram (options : Options) (file text : String) :
    ∀ entity ∈ (parseProgram options file text).entities, entity.Within (readable options.table) := by
  let s := Session.start options file text
  intro entity member
  have latest : s.run.2.latest = (s.run.1.steps.filterMap (·.verdict.entity?)).reverse ++ [] := s.run_keeps.2
  have accepted : entity ∈ s.run.1.steps.filterMap (·.verdict.entity?) := by
    have listed : entity ∈ s.run.2.latest.reverse := member
    rwa [latest, List.append_nil, List.reverse_reverse] at listed
  obtain ⟨step, taken, accepted⟩ := List.mem_filterMap.mp accepted
  have inTrace : step ∈ s.trace := by
    have whole : Cut.upTo Step.fails s.options.errorLimit s.trace ++
        Cut.behind Step.fails s.options.errorLimit s.trace = s.trace := Cut.upTo_append_behind _ _
    rw [← whole, ← s.run_eq_cut.1]
    exact List.mem_append_left _ taken
  exact s.readable_trace (scanned_tokenize file text) step inTrace entity accepted

end Kaleidoscope
