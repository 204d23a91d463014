import Kaleidoscope.Proofs.Grammar.Acceptance
import Kaleidoscope.Session.Basic

/-! Runs without an error. Such a run goes through the attempts of its parser up to the end of the input,
none of which is refused, and the checks of calls, if there are any, let every entity pass. -/
namespace Kaleidoscope

namespace KnownFunctions

/-- Each of the entities passes its check, given what is known from those before it. -/
def Admits (known : KnownFunctions) (entities : List Entity) : Prop :=
  ∀ result ∈ (known.checkEach entities).2, result = .none

theorem admits_nil (known : KnownFunctions) : known.Admits [] := by
  simp [Admits, checkEach]

theorem admits_cons_iff {known : KnownFunctions} {entity : Entity} {entities : List Entity} :
    known.Admits (entity :: entities) ↔
      ∃ extended, known.check entity = .ok extended ∧ extended.Admits entities := by
  simp only [Admits, checkEach]
  cases known.check entity <;> simp

end KnownFunctions

def Passes (checkCalls : Bool) (known : KnownFunctions) (entities : List Entity) : Prop :=
  checkCalls = true → known.Admits entities

namespace Session

variable {s : Session} {p : Parser} {entity : Entity} {entities : List Entity} {allowed : Nat}
  {taken : List Step} {step : Step} {next : Session}

theorem judge_cases (s : Session) (entity : Entity) :
    (∃ known, s.judge entity = (.accepted entity, known) ∧ ∀ entities,
      (Passes s.options.checkCalls s.known (entity :: entities) ↔
        Passes s.options.checkCalls known entities)) ∨
    ∃ diagnostic, s.judge entity = (.rejected entity diagnostic, s.known) ∧
      ∀ entities, ¬ Passes s.options.checkCalls s.known (entity :: entities) := by
  by_cases checked : s.options.checkCalls = true
  · simp only [judge, checked, if_true, Passes, true_implies, KnownFunctions.admits_cons_iff]
    cases s.known.check entity with
    | ok known => exact .inl ⟨known, rfl, fun _ => by simp⟩
    | error diagnostic => exact .inr ⟨diagnostic, rfl, fun _ => by simp⟩
  · exact .inl ⟨s.known, by simp [judge, checked], fun _ => by simp [Passes, checked]⟩

/-- A run is a step and, unless the step was the last one, a run from there. -/
theorem runFrom_eq (taking : s.step = (step, next)) : s.runFrom allowed taken =
    if step.verdict = .finished then (⟨(step :: taken).reverse, false⟩, next)
    else if step.verdict.error?.isNone then next.runFrom allowed (step :: taken)
    else if allowed ≤ 1 then (⟨(step :: taken).reverse, true⟩, next)
    else next.runFrom (allowed - 1) (step :: taken) := by
  rw [runFrom, taking]
  rfl

/-- A run keeps the record of the steps taken already. -/
theorem runFrom_steps (s : Session) (allowed : Nat) (taken : List Step) :
    ∃ more, (s.runFrom allowed taken).1.steps = taken.reverse ++ more := by
  induction s, allowed, taken using runFrom.induct with
  | case1 s allowed taken step next taking ended =>
    exact ⟨[step], by simp [runFrom_eq taking, ended]⟩
  | case2 s allowed taken step next taking goesOn fine ih =>
    obtain ⟨more, steps⟩ := ih
    exact ⟨step :: more, by simp [runFrom_eq taking, goesOn, fine, steps]⟩
  | case3 s allowed taken step next taking goesOn failed last =>
    exact ⟨[step], by simp [runFrom_eq taking, goesOn, failed, last]⟩
  | case4 s allowed taken step next taking goesOn failed more ih =>
    obtain ⟨later, steps⟩ := ih
    exact ⟨step :: later, by simp [runFrom_eq taking, goesOn, failed, more, steps]⟩

/-- A parser goes from here to the end of the input through entities and semicolons only, and the entities
pass their checks. -/
def Passable (s : Session) (items : List (Option Entity)) : Prop :=
  s.parser.outcomes = items.map .ofItem ++ [.finished] ∧
    Passes s.options.checkCalls s.known (items.filterMap id)

/-- All that a step can do: it ends the run, it passes an item, or it meets an error. -/
theorem step_cases (taking : s.step = (step, next)) :
    (step.verdict = .finished ∧ (∀ items, s.Passable items ↔ items = []) ∧ next.latest = s.latest) ∨
    (∃ item : Option Entity, step.verdict ≠ .finished ∧ step.verdict.error? = none ∧
      (∀ items, s.Passable items ↔ ∃ later, items = item :: later ∧ next.Passable later) ∧
      next.latest = item.toList ++ s.latest) ∨
    (step.verdict ≠ .finished ∧ (∃ diagnostic, step.verdict.error? = some diagnostic) ∧
      ∀ items, ¬ s.Passable items) := by
  rcases s.parser.nextEntity_cases with ⟨nothing, attempt⟩ | ⟨token, rest, front, semicolon, attempt⟩ |
    ⟨entity, rest, yields, attempt⟩ | ⟨_, _, _, _, _, -, -, -, -, attempt⟩
  · rw [Session.step, attempt] at taking
    cases taking
    refine .inl ⟨rfl, fun items => ?_, rfl⟩
    rw [Passable, Parser.outcomes_finished nothing]
    rw [Outcome.finished_eq_map_append_iff]
    exact ⟨And.left, fun nothing => ⟨nothing, nothing ▸ fun _ => KnownFunctions.admits_nil _⟩⟩
  · rw [Session.step, attempt] at taking
    cases taking
    refine .inr (.inl ⟨none, by simp, rfl, fun items => ?_, rfl⟩)
    rw [Passable, Parser.outcomes_separator attempt, ← Outcome.ofItem, Outcome.cons_eq_map_append_iff]
    constructor
    · intro h
      obtain ⟨⟨later, rfl, outcomes⟩, passes⟩ := h
      exact ⟨later, rfl, outcomes, passes⟩
    · intro h
      obtain ⟨later, rfl, outcomes, passes⟩ := h
      exact ⟨⟨later, rfl, outcomes⟩, passes⟩
  · have passable (items : List (Option Entity)) : s.Passable items ↔ ∃ later, items = some entity :: later ∧
        Parser.outcomes { s.parser.look with ahead := rest } = later.map .ofItem ++ [.finished] ∧
          Passes s.options.checkCalls s.known (entity :: later.filterMap id) := by
      rw [Passable, Parser.outcomes_accepted attempt, ← Outcome.ofItem, Outcome.cons_eq_map_append_iff]
      constructor
      · intro h
        obtain ⟨⟨later, rfl, outcomes⟩, passes⟩ := h
        exact ⟨later, rfl, outcomes, passes⟩
      · intro h
        obtain ⟨later, rfl, outcomes, passes⟩ := h
        exact ⟨⟨later, rfl, outcomes⟩, passes⟩
    rw [Session.step, attempt] at taking
    rcases s.judge_cases entity with ⟨known, judged, passing⟩ | ⟨diagnostic, judged, failing⟩
    · simp only [judged] at taking
      cases taking
      refine .inr (.inl ⟨some entity, by simp, rfl, fun items => ?_, rfl⟩)
      simp only [passable, passing]
      rfl
    · simp only [judged] at taking
      cases taking
      refine .inr (.inr ⟨by simp, ⟨diagnostic, rfl⟩, fun items => ?_⟩)
      simp [passable, failing]
  · rw [Session.step, attempt] at taking
    cases taking
    refine .inr (.inr ⟨by simp, ⟨_, rfl⟩, fun items => ?_⟩)
    rw [Passable, Parser.outcomes_refused attempt]
    exact fun passable => Outcome.refused_ne_map_append _ _ passable.1

theorem passable_of_runFrom (clean : (s.runFrom allowed taken).1.errors = []) :
    (s.runFrom allowed taken).1.stopped = false ∧
      ∃ items, s.Passable items ∧
        (s.runFrom allowed taken).2.latest = (items.filterMap id).reverse ++ s.latest := by
  have spotless {run : Run} (clean : run.errors = []) {step : Step} (member : step ∈ run.steps) :
      step.verdict.error? = none := List.filterMap_eq_nil_iff.mp clean step member
  induction s, allowed, taken using runFrom.induct with
  | case1 s allowed taken step next taking ended =>
    simp only [runFrom_eq taking, ended, if_true]
    rcases step_cases taking with ⟨-, passable, latest⟩ | ⟨_, goesOn, -⟩ | ⟨goesOn, -⟩
    · exact ⟨trivial, [], (passable []).mpr rfl, latest⟩
    · exact absurd ended goesOn
    · exact absurd ended goesOn
  | case2 s allowed taken step next taking goesOn fine ih =>
    simp only [runFrom_eq taking, goesOn, fine, if_true, if_false] at clean ⊢
    obtain ⟨stopped, items, rest, latest⟩ := ih clean
    rcases step_cases taking with ⟨ended, -⟩ | ⟨item, -, -, passable, before⟩ | ⟨-, ⟨_, failed⟩, -⟩
    · exact absurd ended goesOn
    · refine ⟨stopped, item :: items, (passable _).mpr ⟨items, rfl, rest⟩, ?_⟩
      rw [latest, before]
      cases item <;> simp
    · simp [failed] at fine
  | case3 s allowed taken step next taking goesOn failed last =>
    simp only [runFrom_eq taking, goesOn, failed, last, if_true, if_false] at clean
    simp [spotless clean (List.mem_reverse.mpr List.mem_cons_self)] at failed
  | case4 s allowed taken step next taking goesOn failed more ih =>
    simp only [runFrom_eq taking, goesOn, failed, more, if_false] at clean
    obtain ⟨later, steps⟩ := next.runFrom_steps (allowed - 1) (step :: taken)
    have member : step ∈ (next.runFrom (allowed - 1) (step :: taken)).1.steps := by simp [steps]
    simp [spotless clean member] at failed

theorem runFrom_of_passable {items : List (Option Entity)} (passable : s.Passable items) :
    (s.runFrom allowed taken).1.stopped = false ∧
      (s.runFrom allowed taken).1.errors = taken.reverse.filterMap (·.verdict.error?) ∧
        (s.runFrom allowed taken).2.latest = (items.filterMap id).reverse ++ s.latest := by
  induction s, allowed, taken using runFrom.induct generalizing items with
  | case1 s allowed taken step next taking ended =>
    simp only [runFrom_eq taking, ended, if_true]
    rcases step_cases taking with ⟨-, only, latest⟩ | ⟨_, goesOn, -⟩ | ⟨goesOn, -⟩
    · obtain rfl := (only items).mp passable
      exact ⟨trivial, by simp [Run.errors, ended, Verdict.error?], latest⟩
    · exact absurd ended goesOn
    · exact absurd ended goesOn
  | case2 s allowed taken step next taking goesOn fine ih =>
    simp only [runFrom_eq taking, goesOn, fine, if_true, if_false]
    rcases step_cases taking with ⟨ended, -⟩ | ⟨item, -, clean, only, before⟩ | ⟨-, ⟨_, failed⟩, -⟩
    · exact absurd ended goesOn
    · obtain ⟨later, rfl, rest⟩ := (only items).mp passable
      obtain ⟨stopped, errors, latest⟩ := ih rest
      refine ⟨stopped, by simp [errors, clean], ?_⟩
      rw [latest, before]
      cases item <;> simp
    · simp [failed] at fine
  | case3 s allowed taken step next taking goesOn failed last =>
    rcases step_cases taking with ⟨ended, -⟩ | ⟨_, -, clean, -⟩ | ⟨-, -, never⟩
    · exact absurd ended goesOn
    · simp [clean] at failed
    · exact absurd passable (never items)
  | case4 s allowed taken step next taking goesOn failed more ih =>
    rcases step_cases taking with ⟨ended, -⟩ | ⟨_, -, clean, -⟩ | ⟨-, -, never⟩
    · exact absurd ended goesOn
    · simp [clean] at failed
    · exact absurd passable (never items)

theorem run_of_passable {items : List (Option Entity)} (passable : s.Passable items) :
    s.run.1.stopped = false ∧ s.run.1.errors = [] ∧
      s.run.2.latest = (items.filterMap id).reverse ++ s.latest :=
  runFrom_of_passable passable

end Session

/-- A program is read without an error just when its attempts go to the end without a refusal and the
entities pass their checks, and then these are the entities reported. -/
theorem parseProgram_isOk_iff {options : Options} {file text : String} {entities : List Entity} :
    ((parseProgram options file text).isOk = true ∧ (parseProgram options file text).entities = entities) ↔
      ∃ items : List (Option Entity), (Parser.ofText options.table standardNesting file text).outcomes =
          items.map .ofItem ++ [.finished] ∧
        Passes options.checkCalls .none (items.filterMap id) ∧ items.filterMap id = entities := by
  have start : (Session.start options file text).latest = [] := rfl
  constructor
  · intro h
    obtain ⟨ok, rfl⟩ := h
    have clean : (Session.start options file text).run.1.errors = [] := by
      simp only [parseProgram, Report.isOk, Report.ofRun, List.isEmpty_iff, List.append_eq_nil_iff] at ok
      exact ok.1
    obtain ⟨-, items, ⟨outcomes, passes⟩, latest⟩ := Session.passable_of_runFrom clean
    refine ⟨items, outcomes, passes, ?_⟩
    simp only [parseProgram, Report.ofRun, Session.entities, Session.run, latest, start]
    simp
  · intro h
    obtain ⟨items, outcomes, passes, rfl⟩ := h
    obtain ⟨stopped, errors, latest⟩ :=
      Session.run_of_passable (s := Session.start options file text) ⟨outcomes, passes⟩
    simp only [parseProgram, Report.isOk, Report.ofRun, Session.entities, stopped, errors, latest, start]
    simp

end Kaleidoscope
