import Kaleidoscope.Proofs.Session.Run

/-! Runs as parts of a trace. The trace of a session is what it does up to the end of the input when no error
stops it. A run does its steps up to the last error that is allowed, and the next run does those behind it. -/
namespace Kaleidoscope

namespace Cut

/-- The elements up to and with so many that count; all of them if fewer do. -/
def upTo {α : Type} (counts : α → Bool) : Nat → List α → List α
  | 0, _ => []
  | _ + 1, [] => []
  | more + 1, a :: rest => a :: upTo counts (if counts a then more else more + 1) rest

def behind {α : Type} (counts : α → Bool) : Nat → List α → List α
  | 0, all => all
  | _ + 1, [] => []
  | more + 1, a :: rest => behind counts (if counts a then more else more + 1) rest

variable {α β : Type} {counts : α → Bool} {n : Nat}

@[simp] theorem upTo_zero (all : List α) : upTo counts 0 all = [] := by
  cases all <;> rfl

@[simp] theorem behind_zero (all : List α) : behind counts 0 all = all := by
  cases all <;> rfl

@[simp] theorem upTo_nil : upTo counts n [] = [] := by
  cases n <;> rfl

@[simp] theorem behind_nil : behind counts n [] = [] := by
  cases n <;> rfl

theorem upTo_cons_of_pos {a : α} (counted : counts a = true) (all : List α) :
    upTo counts (n + 1) (a :: all) = a :: upTo counts n all := by
  simp [upTo, counted]

theorem upTo_cons_of_neg {a : α} (uncounted : ¬ counts a = true) (all : List α) :
    upTo counts (n + 1) (a :: all) = a :: upTo counts (n + 1) all := by
  simp [upTo, uncounted]

theorem behind_cons_of_pos {a : α} (counted : counts a = true) (all : List α) :
    behind counts (n + 1) (a :: all) = behind counts n all := by
  simp [behind, counted]

theorem behind_cons_of_neg {a : α} (uncounted : ¬ counts a = true) (all : List α) :
    behind counts (n + 1) (a :: all) = behind counts (n + 1) all := by
  simp [behind, uncounted]

theorem upTo_add (m n : Nat) (all : List α) :
    upTo counts (m + n) all = upTo counts m all ++ upTo counts n (behind counts m all) := by
  induction all generalizing m with
  | nil => simp
  | cons a all ih =>
    cases m with
    | zero => simp
    | succ m =>
      have sum : m + 1 + n = m + n + 1 := by omega
      by_cases counted : counts a = true
      · rw [sum, upTo_cons_of_pos counted, upTo_cons_of_pos counted, behind_cons_of_pos counted, ih]
        rfl
      · rw [sum, upTo_cons_of_neg counted, upTo_cons_of_neg counted, behind_cons_of_neg counted, ← sum, ih]
        rfl

theorem behind_add (m n : Nat) (all : List α) :
    behind counts (m + n) all = behind counts n (behind counts m all) := by
  induction all generalizing m with
  | nil => simp
  | cons a all ih =>
    cases m with
    | zero => simp
    | succ m =>
      have sum : m + 1 + n = m + n + 1 := by omega
      by_cases counted : counts a = true
      · rw [sum, behind_cons_of_pos counted, behind_cons_of_pos counted, ih]
      · rw [sum, behind_cons_of_neg counted, behind_cons_of_neg counted, ← sum, ih]

theorem upTo_append_behind (n : Nat) (all : List α) : upTo counts n all ++ behind counts n all = all := by
  induction all generalizing n with
  | nil => simp
  | cons a all ih =>
    cases n with
    | zero => simp
    | succ n => simp [upTo, behind, ih]

theorem upTo_eq_self {all : List α} (few : all.countP counts < n) : upTo counts n all = all := by
  induction all generalizing n with
  | nil => simp
  | cons a all ih =>
    obtain ⟨n, rfl⟩ := Nat.exists_eq_add_of_lt few
    by_cases counted : counts a = true
    · rw [List.countP_cons_of_pos counted] at few ⊢
      rw [upTo_cons_of_pos counted, ih (by omega)]
    · rw [List.countP_cons_of_neg counted] at few ⊢
      rw [upTo_cons_of_neg counted, ih (by omega)]

theorem countP_behind (n : Nat) (all : List α) :
    (behind counts n all).countP counts = all.countP counts - n := by
  induction all generalizing n with
  | nil => simp
  | cons a all ih =>
    cases n with
    | zero => simp
    | succ n =>
      by_cases counted : counts a = true
      · rw [behind_cons_of_pos counted, ih, List.countP_cons_of_pos counted]
        omega
      · rw [behind_cons_of_neg counted, ih, List.countP_cons_of_neg counted]

/-- The pieces between the cuts make up the list. -/
theorem flatMap_pieces (n pieces : Nat) (all : List α) :
    (List.range pieces).flatMap (fun i => upTo counts n (behind counts (i * n) all)) =
      upTo counts (pieces * n) all := by
  induction pieces with
  | zero => simp
  | succ pieces ih => simp [List.range_succ, ih, Nat.succ_mul, upTo_add]

theorem upTo_map (f : β → α) (n : Nat) (all : List β) :
    upTo counts n (all.map f) = (upTo (counts ∘ f) n all).map f := by
  induction all generalizing n with
  | nil => simp
  | cons b all ih =>
    cases n with
    | zero => simp
    | succ n => simp [upTo, ih]

/-- What counts are the results of `f`: a cut leaves so many of them, and the others behind it. -/
theorem filterMap_upTo {f : α → Option β} (same : ∀ a, counts a = (f a).isSome) (n : Nat) (all : List α) :
    (upTo counts n all).filterMap f = (all.filterMap f).take n := by
  induction all generalizing n with
  | nil => simp
  | cons a all ih =>
    cases n with
    | zero => simp
    | succ n => cases result : f a <;> simp [upTo, same, result, ih]

theorem filterMap_behind {f : α → Option β} (same : ∀ a, counts a = (f a).isSome) (n : Nat)
    (all : List α) : (behind counts n all).filterMap f = (all.filterMap f).drop n := by
  induction all generalizing n with
  | nil => simp
  | cons a all ih =>
    cases n with
    | zero => simp
    | succ n => cases result : f a <;> simp [behind, same, result, ih]

end Cut

def Step.fails (step : Step) : Bool := step.verdict.error?.isSome

theorem Step.fails_eq (step : Step) : step.fails = step.verdict.error?.isSome := rfl

theorem Step.countP_fails (steps : List Step) :
    steps.countP Step.fails = (steps.filterMap (·.verdict.error?)).length :=
  List.length_filterMap_eq_countP.symm

namespace Session

variable {s next : Session} {step : Step} {allowed : Nat}

/-- The steps to the end of the input, whatever errors occur. -/
def trace (s : Session) : List Step :=
  if _ended : s.step.1.verdict = .finished then [s.step.1] else s.step.1 :: s.step.2.trace
termination_by s.parser.ahead.length
decreasing_by exact s.step_shorter _ended

/-- The session at the end of the input. -/
def exhausted (s : Session) : Session :=
  if _ended : s.step.1.verdict = .finished then s.step.2 else s.step.2.exhausted
termination_by s.parser.ahead.length
decreasing_by exact s.step_shorter _ended

theorem trace_ended (taking : s.step = (step, next)) (ended : step.verdict = .finished) :
    s.trace = [step] := by
  rw [trace, taking, dif_pos ended]

theorem trace_more (taking : s.step = (step, next)) (goesOn : step.verdict ≠ .finished) :
    s.trace = step :: next.trace := by
  rw [trace, taking, dif_neg goesOn]

theorem exhausted_ended (taking : s.step = (step, next)) (ended : step.verdict = .finished) :
    s.exhausted = next := by
  rw [exhausted, taking, dif_pos ended]

theorem exhausted_more (taking : s.step = (step, next)) (goesOn : step.verdict ≠ .finished) :
    s.exhausted = next.exhausted := by
  rw [exhausted, taking, dif_neg goesOn]

/-- A session goes on step by step to the end of the input. -/
theorem trace_induction {motive : Session → Prop}
    (ended : ∀ s step next, s.step = (step, next) → step.verdict = .finished → motive s)
    (more : ∀ s step next, s.step = (step, next) → step.verdict ≠ .finished → motive next → motive s)
    (s : Session) : motive s := by
  induction s using trace.induct with
  | case1 s finished => exact ended s _ _ rfl finished
  | case2 s goesOn ih => exact more s _ _ rfl goesOn ih

theorem step_keeps (taking : s.step = (step, next)) :
    next.options = s.options ∧ next.latest = step.verdict.entity?.toList ++ s.latest := by
  rcases attempt : s.parser.nextEntity with ⟨outcome, p⟩
  simp only [Session.step, attempt] at taking
  cases outcome <;> cases taking <;> exact ⟨rfl, rfl⟩

theorem exhausted_keeps (s : Session) : s.exhausted.options = s.options ∧
    s.exhausted.latest = (s.trace.filterMap (·.verdict.entity?)).reverse ++ s.latest := by
  induction s using trace_induction with
  | ended s step next taking ended =>
    obtain ⟨options, latest⟩ := step_keeps taking
    rw [exhausted_ended taking ended, trace_ended taking ended]
    exact ⟨options, by simp [latest, ended, Verdict.entity?]⟩
  | more s step next taking goesOn ih =>
    obtain ⟨options, latest⟩ := step_keeps taking
    rw [exhausted_more taking goesOn, trace_more taking goesOn]
    refine ⟨ih.1.trans options, ?_⟩
    rw [ih.2, latest]
    cases accepted : step.verdict.entity? <;> simp [accepted]

/-- A run goes through the trace up to the last error that is allowed, and leaves what is behind it. -/
theorem runFrom_eq_cut (some : 0 < allowed) (taken : List Step) :
    (s.runFrom allowed taken).1.steps = taken.reverse ++ Cut.upTo Step.fails allowed s.trace ∧
    ((s.runFrom allowed taken).1.stopped = true ↔ allowed ≤ s.trace.countP Step.fails) ∧
    if (s.runFrom allowed taken).1.stopped then
      (s.runFrom allowed taken).2.trace = Cut.behind Step.fails allowed s.trace ∧
        (s.runFrom allowed taken).2.exhausted = s.exhausted
    else (s.runFrom allowed taken).2 = s.exhausted := by
  have failing {step : Step} (failed : ¬ step.verdict.error?.isNone = true) : step.fails = true := by
    simpa [Step.fails, Option.isSome_iff_ne_none] using failed
  have passing {step : Step} (fine : step.verdict.error?.isNone = true) : ¬ step.fails = true := by
    simpa [Step.fails] using fine
  induction s, allowed, taken using runFrom.induct with
  | case1 s allowed taken step next taking ended =>
    obtain ⟨allowed, rfl⟩ := Nat.exists_eq_succ_of_ne_zero (Nat.ne_of_gt some)
    have fine : ¬ step.fails = true := by simp [Step.fails, ended, Verdict.error?]
    simp only [runFrom_eq taking, ended, if_true, trace_ended taking ended, exhausted_ended taking ended,
      List.countP_cons_of_neg fine, Cut.upTo_cons_of_neg fine]
    simp
  | case2 s allowed taken step next taking goesOn fine ih =>
    obtain ⟨allowed, rfl⟩ := Nat.exists_eq_succ_of_ne_zero (Nat.ne_of_gt some)
    simp only [runFrom_eq taking, goesOn, fine, if_true, if_false, trace_more taking goesOn,
      exhausted_more taking goesOn, List.countP_cons_of_neg (passing fine), Cut.upTo_cons_of_neg (passing fine),
      Cut.behind_cons_of_neg (passing fine)]
    simpa using ih some
  | case3 s allowed taken step next taking goesOn failed last =>
    obtain rfl : allowed = 1 := by omega
    simp only [runFrom_eq taking, goesOn, failed, last, if_true, if_false, trace_more taking goesOn,
      exhausted_more taking goesOn, List.countP_cons_of_pos (failing failed), Cut.upTo_cons_of_pos (failing failed),
      Cut.behind_cons_of_pos (failing failed)]
    simp
  | case4 s allowed taken step next taking goesOn failed more ih =>
    obtain ⟨allowed, rfl⟩ : ∃ less, allowed = less + 1 + 1 := ⟨allowed - 2, by omega⟩
    simp only [runFrom_eq taking, goesOn, failed, more, if_false, trace_more taking goesOn,
      exhausted_more taking goesOn, List.countP_cons_of_pos (failing failed), Cut.upTo_cons_of_pos (failing failed),
      Cut.behind_cons_of_pos (failing failed)]
    simpa using ih (by omega)

theorem runFrom_keeps (some : 0 < allowed) (taken : List Step) :
    (s.runFrom allowed taken).2.options = s.options ∧
    (s.runFrom allowed taken).2.latest =
      ((Cut.upTo Step.fails allowed s.trace).filterMap (·.verdict.entity?)).reverse ++ s.latest := by
  obtain ⟨-, stopped, left⟩ := s.runFrom_eq_cut some taken
  obtain ⟨options, latest⟩ := s.exhausted_keeps
  split at left
  · next halted =>
    obtain ⟨trace, exhausted⟩ := left
    obtain ⟨options', latest'⟩ := (s.runFrom allowed taken).2.exhausted_keeps
    rw [exhausted] at options' latest'
    refine ⟨options'.symm.trans options, ?_⟩
    have whole : Cut.upTo Step.fails allowed s.trace ++ Cut.behind Step.fails allowed s.trace = s.trace :=
      Cut.upTo_append_behind allowed s.trace
    have accepted : (s.trace.filterMap (·.verdict.entity?)).reverse =
        ((Cut.behind Step.fails allowed s.trace).filterMap (·.verdict.entity?)).reverse ++
          ((Cut.upTo Step.fails allowed s.trace).filterMap (·.verdict.entity?)).reverse := by
      rw [← List.reverse_append, ← List.filterMap_append, whole]
    rw [latest, trace, accepted, List.append_assoc] at latest'
    exact (List.append_cancel_left latest').symm
  · next through =>
    have few := Nat.lt_of_not_le (mt stopped.mpr through)
    rw [left, Cut.upTo_eq_self few]
    exact ⟨options, latest⟩

theorem run_eq_cut (s : Session) :
    s.run.1.steps = Cut.upTo Step.fails s.options.errorLimit s.trace ∧
    (s.run.1.stopped = true ↔ s.options.errorLimit ≤ s.trace.countP Step.fails) ∧
    (s.run.1.stopped = true → s.run.2.trace = Cut.behind Step.fails s.options.errorLimit s.trace ∧
      s.run.2.exhausted = s.exhausted) ∧
    (s.run.1.stopped = false → s.run.2 = s.exhausted) := by
  obtain ⟨steps, stopped, left⟩ := s.runFrom_eq_cut s.options.errorLimit_pos []
  refine ⟨steps, stopped, fun halted => ?_, fun through => ?_⟩
  · rw [run] at halted
    rwa [if_pos halted] at left
  · rw [run] at through
    rwa [through] at left

theorem run_keeps (s : Session) : s.run.2.options = s.options ∧
    s.run.2.latest = (s.run.1.steps.filterMap (·.verdict.entity?)).reverse ++ s.latest := by
  obtain ⟨options, latest⟩ := s.runFrom_keeps s.options.errorLimit_pos []
  rw [s.run_eq_cut.1]
  exact ⟨options, latest⟩

theorem run_errors (s : Session) :
    s.run.1.errors = (s.trace.filterMap (·.verdict.error?)).take s.options.errorLimit := by
  rw [Run.errors, s.run_eq_cut.1, Cut.filterMap_upTo Step.fails_eq]

theorem run_of_unstopped (through : s.run.1.stopped = false) :
    s.run.1.steps = s.trace ∧ s.run.2 = s.exhausted := by
  obtain ⟨steps, stopped, -, left⟩ := s.run_eq_cut
  have few := Nat.lt_of_not_le (mt stopped.mpr (Bool.eq_false_iff.mp through))
  rw [Cut.upTo_eq_self few] at steps
  exact ⟨steps, left through⟩

def report (s : Session) : Report := .ofRun s.run.1 s.run.2

theorem report_of_unstopped (fresh : s.latest = []) (through : s.run.1.stopped = false) :
    s.report = ⟨s.trace.filterMap (·.verdict.entity?),
      ⟨s.trace.filterMap (·.verdict.error?), s.exhausted.parser.warnings⟩, false⟩ := by
  obtain ⟨steps, ended⟩ := run_of_unstopped through
  obtain ⟨-, latest⟩ := s.exhausted_keeps
  rw [fresh, List.append_nil] at latest
  simp [report, Report.ofRun, Run.errors, through, steps, ended, entities, latest]

def withOptions (s : Session) (options : Options) : Session := { s with options := options }

variable {options : Options}

theorem step_withOptions (same : options.checkCalls = s.options.checkCalls) (taking : s.step = (step, next)) :
    (s.withOptions options).step = (step, next.withOptions options) := by
  rcases attempt : s.parser.nextEntity with ⟨outcome, p⟩
  simp only [Session.step, attempt] at taking
  simp only [Session.step, withOptions, attempt]
  cases outcome <;> cases taking <;> simp [judge, same]

/-- Whether calls are checked is the only option that a trace depends on. -/
theorem trace_withOptions (same : options.checkCalls = s.options.checkCalls) :
    (s.withOptions options).trace = s.trace ∧
      (s.withOptions options).exhausted = s.exhausted.withOptions options := by
  induction s using trace_induction with
  | ended s step next taking ended =>
    have taking' := step_withOptions same taking
    rw [trace_ended taking' ended, exhausted_ended taking' ended, trace_ended taking ended,
      exhausted_ended taking ended]
    exact ⟨rfl, rfl⟩
  | more s step next taking goesOn ih =>
    have taking' := step_withOptions same taking
    obtain ⟨trace, exhausted⟩ := ih (by rw [same, (step_keeps taking).1])
    rw [trace_more taking' goesOn, exhausted_more taking' goesOn, trace_more taking goesOn,
      exhausted_more taking goesOn, trace, exhausted]
    exact ⟨rfl, rfl⟩

end Session
end Kaleidoscope
