import Kaleidoscope.Proofs.Session.Calls
import Kaleidoscope.Proofs.Session.Trace

/-! What checks of calls do to a run. They leave the reading as it is: of what is accepted without them each
entity is checked in its turn, and the result of the check takes the place of the acceptance. -/
namespace Kaleidoscope

def Options.withChecks (options : Options) (checkCalls : Bool) : Options :=
  { options with checkCalls := checkCalls }

def Problem.isSyntactic : Problem → Bool
  | .ungrammatical .. | .unexpectedToken .. | .missingToken .. | .nestingTooDeep .. => true
  | _ => false

def Problem.isSemantic : Problem → Bool
  | .meaningless .. | .unknownFunction .. | .argumentCount .. => true
  | _ => false

theorem Problem.isSemantic_eq_false {problem : Problem} (syntactic : problem.isSyntactic = true) :
    problem.isSemantic = false := by
  cases problem <;> first | rfl | cases syntactic

theorem Problem.isSyntactic_eq_false {problem : Problem} (semantic : problem.isSemantic = true) :
    problem.isSyntactic = false := by
  cases problem <;> first | rfl | cases semantic

theorem Expectation.isSyntactic_problem (expected : Expectation) (found : String) (limit : Int) :
    (expected.problem found limit).isSyntactic = true := by
  cases expected <;> rfl

namespace Entity

def prototype : Entity → Prototype
  | .declaration proto => proto
  | .function f => f.proto

/-- The prototype of the last of the entities with a name that has this one. -/
def lastNamed (name : String) (entities : List Entity) : Option Prototype :=
  (entities.reverse.map prototype).find? fun proto => !proto.isAnonymous && proto.name == name

theorem lastNamed_cons (name : String) (entity : Entity) (entities : List Entity) :
    lastNamed name (entity :: entities) = (lastNamed name entities).or
      (if !entity.prototype.isAnonymous && entity.prototype.name == name then some entity.prototype else none) := by
  rw [lastNamed, List.reverse_cons, List.map_append, List.find?_append, List.map_singleton,
    List.find?_singleton]
  rfl

end Entity

namespace KnownFunctions

variable {known : KnownFunctions} {entity : Entity} {entities : List Entity}

/-- The entities that pass when all are checked one after another. -/
def passing (known : KnownFunctions) (entities : List Entity) : List Entity :=
  ((entities.zip (known.checkEach entities).2).filter (·.2.isNone)).map (·.1)

theorem checkEach_cons (known : KnownFunctions) (entity : Entity) (entities : List Entity) :
    known.checkEach (entity :: entities) = (((known.checked entity).1.checkEach entities).1,
      (known.checked entity).2 :: ((known.checked entity).1.checkEach entities).2) := by
  rw [checkEach, checked]
  cases known.check entity <;> rfl

theorem checked_cases (known : KnownFunctions) (entity : Entity) :
    (known.check entity = .ok (known.declare entity.prototype) ∧
      known.checked entity = (known.declare entity.prototype, .none)) ∨
    ∃ diagnostic, diagnostic.problem.isSemantic = true ∧ known.checked entity = (known, some diagnostic) := by
  cases entity with
  | declaration proto => exact .inl ⟨rfl, rfl⟩
  | function f =>
    cases fault : (known.declare f.proto).firstFault? f.body.calls with
    | none => exact .inl ⟨by simp [check, fault, Entity.prototype], by simp [checked, check, fault, Entity.prototype]⟩
    | some diagnostic =>
      refine .inr ⟨diagnostic, ?_, by simp [checked, check, fault]⟩
      obtain ⟨call, -, found⟩ := List.exists_of_findSome?_eq_some fault
      obtain ⟨problem, wrong, rfl⟩ := Option.map_eq_some_iff.mp found
      rw [fault?] at wrong
      split at wrong
      · cases wrong
        rfl
      · split at wrong
        · cases wrong
        · cases wrong
          rfl

theorem passing_cons (known : KnownFunctions) (entity : Entity) (entities : List Entity) :
    known.passing (entity :: entities) =
      if (known.checked entity).2.isNone then entity :: (known.checked entity).1.passing entities
      else (known.checked entity).1.passing entities := by
  rw [passing, checkEach_cons, List.zip_cons_cons, List.filter_cons]
  split <;> rfl

theorem find?_declare (known : KnownFunctions) (proto : Prototype) (name : String) :
    (known.declare proto).find? name =
      (if !proto.isAnonymous && proto.name == name then some proto else .none).or (known.find? name) := by
  by_cases anonymous : proto.isAnonymous = true
  · simp [declare, anonymous]
  · by_cases same : proto.name = name
    · simp [declare, anonymous, find?, ← same]
    · simp [declare, anonymous, find?, same, Association.find?_insert_other (Ne.symm same)]

/-- In the end the functions are known as they were last declared or defined by an entity that passed. -/
theorem find?_checkEach (known : KnownFunctions) (entities : List Entity) (name : String) :
    (known.checkEach entities).1.find? name =
      (Entity.lastNamed name (known.passing entities)).or (known.find? name) := by
  induction entities generalizing known with
  | nil => rfl
  | cons entity entities ih =>
    rw [checkEach_cons, passing_cons, ih]
    rcases known.checked_cases entity with ⟨-, passed⟩ | ⟨diagnostic, -, failed⟩
    · rw [passed, find?_declare, Option.isNone_none, if_pos rfl, Entity.lastNamed_cons, Option.or_assoc]
    · simp [failed]

/-- The entities that pass among others pass by themselves. -/
theorem admits_passing (known : KnownFunctions) (entities : List Entity) :
    known.Admits (known.passing entities) := by
  induction entities generalizing known with
  | nil => exact admits_nil known
  | cons entity entities ih =>
    rw [passing_cons]
    rcases known.checked_cases entity with ⟨accepts, passed⟩ | ⟨diagnostic, -, failed⟩
    · rw [passed, Option.isNone_none, if_pos rfl]
      exact admits_cons_iff.mpr ⟨_, accepts, ih _⟩
    · simpa [failed] using ih known

theorem checkAll_eq_nil (admits : known.Admits entities) : (known.checkAll entities).2 = [] :=
  List.filterMap_eq_nil_iff.mpr admits

end KnownFunctions

theorem Verdict.entity?_eq_some_iff {verdict : Verdict} {entity : Entity} :
    verdict.entity? = some entity ↔ verdict = .accepted entity := by
  cases verdict <;> simp [entity?]

namespace Step

/-- Steps with the results of checks: each acceptance in turn is judged by the next result. -/
def weave : List Step → List (Option Diagnostic) → List Step
  | [], _ => []
  | step :: steps, results =>
    match step.verdict, results with
    | .accepted entity, result :: results => { step with verdict := .judged entity result } :: weave steps results
    | _, results => step :: weave steps results

/-- The steps with the results of checking what they accept. -/
def judgedBy (known : KnownFunctions) (steps : List Step) : List Step :=
  weave steps (known.checkEach (steps.filterMap (·.verdict.entity?))).2

variable {step : Step} {entity : Entity}

theorem judgedBy_cons_of_accepted (accepted : step.verdict = .accepted entity) (known : KnownFunctions)
    (steps : List Step) : judgedBy known (step :: steps) =
      { step with verdict := .judged entity (known.checked entity).2 } ::
        judgedBy (known.checked entity).1 steps := by
  simp only [judgedBy, List.filterMap_cons, accepted, Verdict.entity?, KnownFunctions.checkEach_cons, weave]

theorem judgedBy_cons_of_other (other : step.verdict.entity? = none) (known : KnownFunctions)
    (steps : List Step) : judgedBy known (step :: steps) = step :: judgedBy known steps := by
  simp only [judgedBy, List.filterMap_cons, other, weave]
  cases verdict : step.verdict with
  | accepted entity => simp [verdict, Verdict.entity?] at other
  | _ => rfl

theorem entities_judgedBy (known : KnownFunctions) (steps : List Step) :
    (judgedBy known steps).filterMap (·.verdict.entity?) =
      known.passing (steps.filterMap (·.verdict.entity?)) := by
  induction steps generalizing known with
  | nil => rfl
  | cons step steps ih =>
    cases accepted : step.verdict.entity? with
    | none => simp only [judgedBy_cons_of_other accepted, List.filterMap_cons, accepted, ih]
    | some entity =>
      rw [judgedBy_cons_of_accepted (Verdict.entity?_eq_some_iff.mp accepted)]
      simp only [List.filterMap_cons, accepted, KnownFunctions.passing_cons, ih]
      cases (known.checked entity).2 <;> rfl

/-- Checks keep the errors of the grammar in their order, and add those that they find. -/
theorem errors_judgedBy (known : KnownFunctions) {steps : List Step}
    (unchecked : ∀ step ∈ steps, ∀ error ∈ step.verdict.error?, error.problem.isSyntactic = true) :
    ((judgedBy known steps).filterMap (·.verdict.error?)).filter (·.problem.isSyntactic) =
        steps.filterMap (·.verdict.error?) ∧
      ((judgedBy known steps).filterMap (·.verdict.error?)).filter (·.problem.isSemantic) =
        (known.checkAll (steps.filterMap (·.verdict.entity?))).2 := by
  induction steps generalizing known with
  | nil => exact ⟨rfl, rfl⟩
  | cons step steps ih =>
    obtain ⟨first, others⟩ := List.forall_mem_cons.mp unchecked
    cases accepted : step.verdict.entity? with
    | none =>
      obtain ⟨syntactic, semantic⟩ := ih known others
      simp only [judgedBy_cons_of_other accepted, List.filterMap_cons, accepted, ← semantic]
      cases failed : step.verdict.error? with
      | none => exact ⟨syntactic, rfl⟩
      | some error =>
        have kind := first error failed
        simp [kind, Problem.isSemantic_eq_false kind, syntactic]
    | some entity =>
      have verdict := Verdict.entity?_eq_some_iff.mp accepted
      obtain ⟨syntactic, semantic⟩ := ih (known.checked entity).1 others
      have clean : step.verdict.error? = none := by rw [verdict]; rfl
      simp only [judgedBy_cons_of_accepted verdict, List.filterMap_cons, accepted, clean, Verdict.error?_judged,
        KnownFunctions.checkAll, KnownFunctions.checkEach_cons]
      rw [KnownFunctions.checkAll] at semantic
      rcases known.checked_cases entity with ⟨-, passed⟩ | ⟨error, kind, failed⟩
      · rw [passed] at syntactic semantic ⊢
        exact ⟨syntactic, semantic⟩
      · rw [failed] at syntactic semantic ⊢
        simp [kind, Problem.isSyntactic_eq_false kind, syntactic, semantic]

theorem countP_fails_le_judgedBy (known : KnownFunctions) {steps : List Step}
    (unchecked : ∀ step ∈ steps, ∀ error ∈ step.verdict.error?, error.problem.isSyntactic = true) :
    steps.countP Step.fails ≤ (judgedBy known steps).countP Step.fails := by
  rw [countP_fails, countP_fails, ← (errors_judgedBy known unchecked).1]
  exact List.length_filter_le _ _

end Step

namespace Session

variable {s t next : Session} {step : Step}

/-- A step without checks accepts every entity, so that its errors are of the grammar. -/
theorem isSyntactic_of_step (unchecked : s.options.checkCalls = false) (taking : s.step = (step, next)) :
    ∀ error ∈ step.verdict.error?, error.problem.isSyntactic = true := by
  rcases s.parser.nextEntity_cases with ⟨-, attempt⟩ | ⟨_, _, -, -, attempt⟩ | ⟨_, _, -, attempt⟩ |
    ⟨_, _, expected, _, q, -, -, -, -, attempt⟩
  all_goals
    rw [Session.step, attempt] at taking
  · cases taking
    simp [Verdict.error?]
  · cases taking
    simp [Verdict.error?]
  · simp only [judge_of_no_checks unchecked] at taking
    cases taking
    simp [Verdict.error?]
  · cases taking
    simp only [Verdict.error?, Option.mem_some]
    intro error same
    subst same
    exact expected.isSyntactic_problem _ _

theorem isSyntactic_of_trace (unchecked : s.options.checkCalls = false) :
    ∀ step ∈ s.trace, ∀ error ∈ step.verdict.error?, error.problem.isSyntactic = true := by
  induction s using trace_induction with
  | ended s step next taking ended =>
    rw [trace_ended taking ended, List.forall_mem_singleton]
    exact isSyntactic_of_step unchecked taking
  | more s step next taking goesOn ih =>
    rw [trace_more taking goesOn, List.forall_mem_cons]
    exact ⟨isSyntactic_of_step unchecked taking, ih (by rw [(step_keeps taking).1, unchecked])⟩

/-- A step with checks reads what the step without them reads, and judges what that one accepts. -/
theorem step_of_checks (same : t.parser = s.parser) (unchecked : s.options.checkCalls = false)
    (checks : t.options.checkCalls = true) (taking : s.step = (step, next)) :
    ∃ step' next', t.step = (step', next') ∧ next'.parser = next.parser ∧
      ((∃ entity, step.verdict = .accepted entity ∧
        step' = { step with verdict := .judged entity (t.known.checked entity).2 } ∧
        next'.known = (t.known.checked entity).1) ∨
      (step.verdict.entity? = none ∧ step' = step ∧ next'.known = t.known)) := by
  rcases attempt : s.parser.nextEntity with ⟨outcome, p⟩
  simp only [Session.step, attempt] at taking
  simp only [Session.step, same, attempt]
  cases outcome with
  | accepted entity =>
    simp only [judge_of_no_checks unchecked] at taking
    cases taking
    simp only [judge_of_checks checks]
    exact ⟨_, _, rfl, rfl, .inl ⟨entity, rfl, rfl, rfl⟩⟩
  | _ =>
    cases taking
    exact ⟨_, _, rfl, rfl, .inr ⟨rfl, rfl, rfl⟩⟩

theorem trace_of_checks (same : t.parser = s.parser) (unchecked : s.options.checkCalls = false)
    (checks : t.options.checkCalls = true) :
    t.trace = Step.judgedBy t.known s.trace ∧ t.exhausted.parser = s.exhausted.parser ∧
      t.exhausted.known = (t.known.checkEach (s.trace.filterMap (·.verdict.entity?))).1 := by
  induction s using trace_induction generalizing t with
  | ended s step next taking ended =>
    obtain ⟨step', next', taking', parser, ⟨entity, accepted, -⟩ | ⟨other, rfl, known⟩⟩ :=
      step_of_checks same unchecked checks taking
    · simp [ended] at accepted
    · rw [trace_ended taking' ended, exhausted_ended taking' ended, trace_ended taking ended,
        exhausted_ended taking ended, Step.judgedBy_cons_of_other other]
      simp only [List.filterMap_cons, other]
      exact ⟨rfl, parser, known⟩
  | more s step next taking goesOn ih =>
    obtain ⟨step', next', taking', parser, judged⟩ := step_of_checks same unchecked checks taking
    obtain ⟨trace, parser, known⟩ := ih parser (by rw [(step_keeps taking).1, unchecked])
      (by rw [(step_keeps taking').1, checks])
    rw [trace_more taking goesOn, exhausted_more taking goesOn]
    rcases judged with ⟨entity, accepted, rfl, extended⟩ | ⟨other, rfl, extended⟩
    · have goesOn' : Verdict.judged entity (t.known.checked entity).2 ≠ .finished := by
        cases (t.known.checked entity).2 <;> simp [Verdict.judged]
      rw [trace_more taking' goesOn', exhausted_more taking' goesOn', Step.judgedBy_cons_of_accepted accepted,
        trace, extended]
      simp only [List.filterMap_cons, accepted, Verdict.entity?, KnownFunctions.checkEach_cons]
      exact ⟨trivial, parser, extended ▸ known⟩
    · rw [trace_more taking' goesOn, exhausted_more taking' goesOn, Step.judgedBy_cons_of_other other,
        trace, extended]
      simp only [List.filterMap_cons, other]
      exact ⟨trivial, parser, extended ▸ known⟩

theorem unstopped_of_checks (same : t.parser = s.parser) (unchecked : s.options.checkCalls = false)
    (checks : t.options.checkCalls = true) (limit : t.options.errorLimit = s.options.errorLimit)
    (through : t.run.1.stopped = false) : s.run.1.stopped = false := by
  obtain ⟨trace, -⟩ := trace_of_checks same unchecked checks
  have few : t.trace.countP Step.fails < t.options.errorLimit :=
    Nat.lt_of_not_le (mt t.run_eq_cut.2.1.mpr (Bool.eq_false_iff.mp through))
  have fewer : s.trace.countP Step.fails < s.options.errorLimit := by
    rw [trace, limit] at few
    exact Nat.lt_of_le_of_lt (Step.countP_fails_le_judgedBy t.known (isSyntactic_of_trace unchecked)) few
  exact Bool.eq_false_iff.mpr (mt s.run_eq_cut.2.1.mp (Nat.not_le.mpr fewer))

end Session

/-- Checks of calls filter what a run accepts without them. The errors of the grammar stay the same and in order;
the others are those of checking the entities one after another; together they stand in the order of the attempts.
The entities that pass are kept. The functions known in the end are those that these declare or define, each as it
was last, and to check only these entities finds nothing. -/
theorem checks_filter_runs (options : Options) (file text : String)
    (unreached : (parseProgram (options.withChecks true) file text).stopped = false) :
    let plain := parseProgram (options.withChecks false) file text
    let checked := parseProgram (options.withChecks true) file text
    let attempts := (Session.start (options.withChecks false) file text).run.1.steps
    let results := (KnownFunctions.none.checkEach plain.entities).2
    plain.stopped = false ∧
      checked.findings.errors.filter (·.problem.isSyntactic) = plain.findings.errors ∧
      checked.findings.errors.filter (·.problem.isSemantic) = (KnownFunctions.none.checkAll plain.entities).2 ∧
      checked.findings.errors = (Step.weave attempts results).filterMap (·.verdict.error?) ∧
      checked.entities = KnownFunctions.none.passing plain.entities ∧
      (∀ name, (Session.start (options.withChecks true) file text).run.2.known.find? name =
        Entity.lastNamed name checked.entities) ∧
      (KnownFunctions.none.checkAll checked.entities).2 = [] := by
  intro plain checked attempts results
  let without := Session.start (options.withChecks false) file text
  let session := Session.start (options.withChecks true) file text
  obtain ⟨trace, -, known⟩ : session.trace = Step.judgedBy .none without.trace ∧
      session.exhausted.parser = without.exhausted.parser ∧
      session.exhausted.known = (KnownFunctions.none.checkEach (without.trace.filterMap (·.verdict.entity?))).1 :=
    Session.trace_of_checks rfl rfl rfl
  have syntactic : ∀ step ∈ without.trace, ∀ error ∈ step.verdict.error?, error.problem.isSyntactic = true :=
    Session.isSyntactic_of_trace rfl
  have through : without.run.1.stopped = false :=
    Session.unstopped_of_checks (t := session) rfl rfl rfl rfl unreached
  have steps : attempts = without.trace := (Session.run_of_unstopped through).1
  have left : session.run.2 = session.exhausted := (Session.run_of_unstopped unreached).2
  have reported : plain = ⟨_, ⟨_, _⟩, false⟩ := Session.report_of_unstopped (s := without) rfl through
  have reported' : checked = ⟨_, ⟨_, _⟩, false⟩ := Session.report_of_unstopped (s := session) rfl unreached
  have entities : checked.entities = KnownFunctions.none.passing plain.entities := by
    rw [reported, reported']
    simp only [trace, Step.entities_judgedBy]
  refine ⟨through, ?_, ?_, ?_, entities, fun name => ?_, ?_⟩
  · rw [reported, reported']
    simp only [trace, Step.errors_judgedBy .none syntactic]
  · rw [reported, reported']
    simp only [trace, Step.errors_judgedBy .none syntactic]
  · simp only [results, steps, reported, reported', trace, Step.judgedBy]
  · have unknown : KnownFunctions.none.find? name = none := rfl
    calc session.run.2.known.find? name
      _ = (KnownFunctions.none.checkEach plain.entities).1.find? name := by rw [left, known, reported]
      _ = Entity.lastNamed name (KnownFunctions.none.passing plain.entities) := by
        rw [KnownFunctions.find?_checkEach, unknown, Option.or_none]
      _ = Entity.lastNamed name checked.entities := by rw [entities]
  · rw [entities]
    exact KnownFunctions.checkAll_eq_nil (KnownFunctions.none.admits_passing plain.entities)

/-- A second definition of `f` that calls itself with too few arguments, a stray parenthesis, and a call with one
argument too few. The first `f` stays known, so that the last call of it passes. -/
theorem checks_filter_runs_redefinition :
    let text := "extern f(x) def g(a b) f(a) def f(y z) f(1) ) g(1) f(2)"
    let plain := parseProgram (Options.standard.withChecks false) "calls" text
    let checked := parseProgram (Options.standard.withChecks true) "calls" text
    checked.stopped = false ∧ plain.findings.errors.length = 1 ∧ checked.findings.errors.length = 3 ∧
      checked.findings.errors.filter (·.problem.isSyntactic) = plain.findings.errors ∧
      checked.findings.errors.filter (·.problem.isSemantic) = (KnownFunctions.none.checkAll plain.entities).2 ∧
      plain.entities.length = 5 ∧ checked.entities = KnownFunctions.none.passing plain.entities ∧
      (Session.start (Options.standard.withChecks true) "calls" text).run.2.known.find? "f" =
        Entity.lastNamed "f" checked.entities ∧
      (KnownFunctions.none.checkAll checked.entities).2 = [] := by
  intro text plain checked
  have unreached : checked.stopped = false := by decide +kernel
  obtain ⟨-, syntactic, semantic, -, entities, known, clean⟩ :=
    checks_filter_runs Options.standard "calls" text unreached
  exact ⟨unreached, by decide +kernel, by decide +kernel, syntactic, semantic, by decide +kernel, entities,
    known "f", clean⟩

end Kaleidoscope
