import Mathlib.Data.List.Basic
import Mathlib.Logic.Function.Iterate
import Kaleidoscope.Proofs.Session.Trace

/-! What the error limit does. It cuts the steps of a session into runs and changes none of them: each run goes
on where the one before it stopped, and together they do what a single run does that no limit stops. -/
namespace Kaleidoscope

def Options.withLimit (options : Options) (limit : Nat) (positive : 0 < limit) : Options :=
  { options with errorLimit := limit, errorLimit_pos := positive }

namespace Session

variable {s : Session}

def resumed (s : Session) (runs : Nat) : Session := (fun s => s.run.2)^[runs] s

theorem resumed_succ (s : Session) (runs : Nat) : s.resumed (runs + 1) = (s.resumed runs).run.2 :=
  Function.iterate_succ_apply' _ runs s

/-- As long as there are errors for all of its runs, a session goes on behind the last error of each. -/
theorem resumed_eq_cut {runs : Nat} (many : runs * s.options.errorLimit ≤ s.trace.countP Step.fails) :
    (s.resumed runs).options = s.options ∧
      (s.resumed runs).trace = Cut.behind Step.fails (runs * s.options.errorLimit) s.trace ∧
      (s.resumed runs).exhausted = s.exhausted := by
  induction runs with
  | zero => simp [resumed]
  | succ runs ih =>
    rw [Nat.succ_mul] at many
    obtain ⟨options, trace, exhausted⟩ := ih (by omega)
    obtain ⟨-, stopped, left, -⟩ := (s.resumed runs).run_eq_cut
    obtain ⟨options', -⟩ := (s.resumed runs).run_keeps
    rw [trace, Cut.countP_behind, options] at stopped
    obtain ⟨trace', exhausted'⟩ := left (stopped.mpr (by omega))
    rw [trace, options, ← Cut.behind_add, ← Nat.succ_mul] at trace'
    rw [resumed_succ]
    exact ⟨options'.trans options, trace', exhausted'.trans exhausted⟩

theorem run_resumed {runs : Nat} (many : runs * s.options.errorLimit ≤ s.trace.countP Step.fails) :
    (s.resumed runs).run.1.steps = Cut.upTo Step.fails s.options.errorLimit
        (Cut.behind Step.fails (runs * s.options.errorLimit) s.trace) ∧
      ((s.resumed runs).run.1.stopped = true ↔
        (runs + 1) * s.options.errorLimit ≤ s.trace.countP Step.fails) ∧
      ((s.resumed runs).run.1.stopped = false → (s.resumed runs).run.2 = s.exhausted) := by
  obtain ⟨options, trace, exhausted⟩ := resumed_eq_cut many
  obtain ⟨steps, stopped, -, through⟩ := (s.resumed runs).run_eq_cut
  rw [options, trace] at steps
  rw [options, trace, Cut.countP_behind] at stopped
  refine ⟨steps, ?_, fun unstopped => (through unstopped).trans exhausted⟩
  rw [stopped, Nat.succ_mul]
  omega

theorem latest_resumed (s : Session) (runs : Nat)
    (many : (runs - 1) * s.options.errorLimit ≤ s.trace.countP Step.fails) :
    (s.resumed runs).latest = ((Cut.upTo Step.fails (runs * s.options.errorLimit) s.trace).filterMap
      (·.verdict.entity?)).reverse ++ s.latest := by
  induction runs with
  | zero => simp [resumed]
  | succ runs ih =>
    have before : (runs - 1) * s.options.errorLimit ≤ s.trace.countP Step.fails :=
      Nat.le_trans (Nat.mul_le_mul_right _ (Nat.sub_le runs 1)) many
    obtain ⟨steps, -⟩ := run_resumed many
    rw [Nat.add_sub_cancel] at steps
    obtain ⟨-, latest⟩ := (s.resumed runs).run_keeps
    rw [resumed_succ, latest, steps, ih before, Nat.succ_mul, Cut.upTo_add, List.filterMap_append,
      List.reverse_append, List.append_assoc]

theorem report_resumed (fresh : s.latest = []) {runs : Nat}
    (many : runs * s.options.errorLimit ≤ s.trace.countP Step.fails) :
    let report := (s.resumed runs).report
    report.findings.errors = ((s.trace.filterMap (·.verdict.error?)).drop (runs * s.options.errorLimit)).take
        s.options.errorLimit ++ (if report.stopped then [Report.tooMany s.options.errorLimit] else []) ∧
      report.entities =
        (Cut.upTo Step.fails ((runs + 1) * s.options.errorLimit) s.trace).filterMap (·.verdict.entity?) := by
  intro report
  obtain ⟨options, trace, -⟩ := resumed_eq_cut many
  obtain ⟨options', -⟩ := (s.resumed runs).run_keeps
  constructor
  · have errors : (s.resumed runs).run.1.errors = ((s.trace.filterMap (·.verdict.error?)).drop
        (runs * s.options.errorLimit)).take s.options.errorLimit := by
      rw [(s.resumed runs).run_errors, trace, options, Cut.filterMap_behind Step.fails_eq]
    simp only [report, Session.report, Report.ofRun, errors, options', options]
  · have latest := s.latest_resumed (runs + 1) many
    rw [resumed_succ, fresh, List.append_nil] at latest
    simp only [report, Session.report, Report.ofRun, entities, latest, List.reverse_reverse]

end Session

theorem Session.start_withLimit (options : Options) (file text : String) {limit : Nat} (positive : 0 < limit) :
    (start (options.withLimit limit positive) file text).trace = (start options file text).trace ∧
      (start (options.withLimit limit positive) file text).exhausted.parser =
        (start options file text).exhausted.parser := by
  let session := start options file text
  let limited := session.withOptions (options.withLimit limit positive)
  obtain ⟨trace, exhausted⟩ : limited.trace = session.trace ∧
      limited.exhausted = session.exhausted.withOptions (options.withLimit limit positive) := trace_withOptions rfl
  have last := congrArg Session.parser exhausted
  exact ⟨trace, last⟩

/-- A limit stops a run just when there are so many errors; a greater one is never reached. -/
theorem stopped_withLimit_iff (options : Options) (file text : String) {limit : Nat} (positive : 0 < limit) :
    (parseProgram (options.withLimit limit positive) file text).stopped = true ↔
      limit ≤ (Session.start options file text).trace.countP Step.fails := by
  rw [← (Session.start_withLimit options file text positive).1]
  exact (Session.start (options.withLimit limit positive) file text).run_eq_cut.2.1

/-- The error limit cuts the steps of a program's reading into runs of one session and changes none of them.
Next to a limit that is never reached, with so many errors in all, every run but the last stops at the limit, at
the errors that come next. Each report has these errors and, if the run was stopped, the one that says so; it has
the entities that are accepted up to there. The last report has all entities and warnings. -/
theorem error_limit_slices_runs (options : Options) (file text : String) {limit : Nat} (positive : 0 < limit)
    (unreached : (parseProgram (options.withLimit limit positive) file text).stopped = false) :
    let whole := parseProgram (options.withLimit limit positive) file text
    let steps := (Session.start (options.withLimit limit positive) file text).run.1.steps
    let session := Session.start options file text
    let errors := whole.findings.errors
    let last := errors.length / options.errorLimit
    (∀ run < last, (session.resumed run).report.stopped = true) ∧
      (session.resumed last).report.stopped = false ∧
      (∀ run ≤ last, let report := (session.resumed run).report
        report.findings.errors = (errors.drop (run * options.errorLimit)).take options.errorLimit ++
          (if report.stopped then [Report.tooMany options.errorLimit] else []) ∧
        report.entities =
          (Cut.upTo Step.fails ((run + 1) * options.errorLimit) steps).filterMap (·.verdict.entity?)) ∧
      (session.resumed last).report.entities = whole.entities ∧
      (session.resumed last).report.findings.warnings = whole.findings.warnings ∧
      (List.range (last + 1)).flatMap (fun run => (session.resumed run).run.1.steps) = steps := by
  intro whole steps session errors last
  obtain ⟨trace, exhausted⟩ := Session.start_withLimit options file text positive
  have through : steps = session.trace := (Session.run_of_unstopped unreached).1.trans trace
  have reported : whole = ⟨session.trace.filterMap (·.verdict.entity?),
      ⟨session.trace.filterMap (·.verdict.error?), session.exhausted.parser.warnings⟩, false⟩ := by
    have reported := Session.report_of_unstopped rfl unreached
    rwa [trace, exhausted] at reported
  have count : errors.length = session.trace.countP Step.fails := by
    simp only [errors, reported, Step.countP_fails]
  have some : 0 < options.errorLimit := options.errorLimit_pos
  have many {run : Nat} (within : run ≤ last) : run * options.errorLimit ≤ session.trace.countP Step.fails :=
    count ▸ (Nat.le_div_iff_mul_le some).mp within
  have beyond : session.trace.countP Step.fails < (last + 1) * options.errorLimit :=
    count ▸ (Nat.div_lt_iff_lt_mul some).mp (Nat.lt_succ_self last)
  have unstopped : (session.resumed last).run.1.stopped = false :=
    Bool.eq_false_iff.mpr (mt (Session.run_resumed (many (Nat.le_refl last))).2.1.mp (Nat.not_le.mpr beyond))
  have reports {run : Nat} (within : run ≤ last) := Session.report_resumed (s := session) rfl (many within)
  refine ⟨fun run before => ?_, unstopped, fun run within => ?_, ?_, ?_, ?_⟩
  · exact (Session.run_resumed (many (Nat.le_of_lt before))).2.1.mpr (many before)
  · simp only [errors, reported, through]
    exact reports within
  · rw [(reports (Nat.le_refl last)).2]
    exact (congrArg _ (Cut.upTo_eq_self beyond)).trans (congrArg Report.entities reported).symm
  · have ended := (Session.run_resumed (many (Nat.le_refl last))).2.2 unstopped
    simp only [Session.report, Report.ofRun, ended, reported]
  · have pieces : ∀ run ∈ List.range (last + 1), (session.resumed run).run.1.steps =
        Cut.upTo Step.fails options.errorLimit (Cut.behind Step.fails (run * options.errorLimit) session.trace) :=
      fun run member => (Session.run_resumed (many (Nat.le_of_lt_succ (List.mem_range.mp member)))).1
    rw [List.flatMap_congr pieces, Cut.flatMap_pieces, Cut.upTo_eq_self beyond, through]

/-- Three errors under a limit of two, the first of them a call at fault: the second run finds the third error and
has the entities of both runs. -/
theorem error_limit_slices_runs_calls :
    let options : Options := { Options.standard with checkCalls := true, errorLimit := 2, errorLimit_pos := by decide }
    let text := "extern f(x) f(1, 2) ) f(3) 1.2.3 g(1)"
    let whole := parseProgram (options.withLimit 100 (by decide)) "runs" text
    let session := Session.start options "runs" text
    whole.stopped = false ∧ whole.findings.errors.length / 2 = 1 ∧
      (session.resumed 0).report.stopped = true ∧ (session.resumed 1).report.stopped = false ∧
      (session.resumed 0).report.findings.errors = whole.findings.errors.take 2 ++ [Report.tooMany 2] ∧
      (session.resumed 1).report.findings.errors = (whole.findings.errors.drop 2).take 2 ∧
      (session.resumed 1).report.entities = whole.entities ∧
      (session.resumed 1).report.findings.warnings = whole.findings.warnings := by
  intro options text whole session
  have unreached : whole.stopped = false := by decide +kernel
  have last : whole.findings.errors.length / 2 = 1 := by decide +kernel
  obtain ⟨stopped, unstopped, reports, entities, warnings, -⟩ :=
    error_limit_slices_runs options "runs" text (by decide) unreached
  have halted : (session.resumed 0).report.stopped = true := stopped 0 (last ▸ Nat.zero_lt_one)
  have ended : (session.resumed 1).report.stopped = false := last ▸ unstopped
  have first := (reports 0 (Nat.zero_le _)).1
  have second := (reports 1 (Nat.le_of_eq last.symm)).1
  refine ⟨unreached, last, halted, ended, ?_, ?_, last ▸ entities, last ▸ warnings⟩
  · rw [first, if_pos halted]
    rfl
  · rw [second, ended]
    exact List.append_nil _

end Kaleidoscope
