import Kaleidoscope.Proofs.Grammar.Lookahead
import Kaleidoscope.Proofs.Session.Trace
import Kaleidoscope.Session.Transcript

/-! What a session has asked for is all that it has written by then. On two programs that start with the same
characters two sessions write the same until one of them asks for a character behind these. -/
namespace Kaleidoscope

/-- How many requests for a character have been made when a step is over. -/
def Step.cost (step : Step) : Nat := (step.resumed?.getD step.last).window.requests

namespace Run

variable {voice : Voice} {prompt : String} {cost m : Nat}

/-- The texts that steps write, each with the number of requests that have been made by then: the prompt comes
before those of the step, and the verdict before the token that is dropped after an error. -/
def writesFrom (voice : Voice) (prompt : String) (cost : Nat) : List Step → List (Nat × String)
  | [] => [(cost, if voice.interactive then "\n" else "")]
  | step :: steps =>
    (cost, if voice.interactive then prompt else "") ::
      (step.last.window.requests, step.verdict.told voice) :: writesFrom voice prompt step.cost steps

def writes (voice : Voice) (prompt : String) (run : Run) : List (Nat × String) :=
  writesFrom voice prompt 0 run.steps

theorem join_writesFrom (steps : List Step) : String.join ((writesFrom voice prompt cost steps).map (·.2)) =
    String.join (steps.map (Step.told voice prompt)) ++ if voice.interactive then "\n" else "" := by
  induction steps generalizing cost with
  | nil => simp [writesFrom]
  | cons step steps ih => simp [writesFrom, ih, Step.told, String.append_assoc]

theorem join_writes (run : Run) : String.join ((run.writes voice prompt).map (·.2)) = run.told voice prompt :=
  join_writesFrom run.steps

theorem takeWhile_writesFrom (beyond : m < cost) (steps : List Step) :
    (writesFrom voice prompt cost steps).takeWhile (·.1 ≤ m) = [] := by
  cases steps <;> simp [writesFrom, beyond]

end Run

namespace Session

/-- Two sessions have come equally far in tokens that start alike, and know the same functions. -/
structure InStep (m : Nat) (s t : Session) : Prop where
  options : t.options = s.options
  known : t.known = s.known
  parser : s.parser.InStep m t.parser

variable {m : Nat} {s t next next' : Session} {first first' : Step}

theorem last_step (taking : s.step = (first, next)) : first.last = s.parser.nextEntity.2.current := by
  rcases attempt : s.parser.nextEntity with ⟨outcome, p⟩
  simp only [Session.step, attempt] at taking
  cases outcome <;> cases taking <;> rfl

/-- A step that ends at a token within the limit is the same for both, up to the token that it drops. -/
theorem InStep.step_cases (h : InStep m s t) (taking : s.step = (first, next)) (taking' : t.step = (first', next')) :
    (first'.last = first.last ∧ first'.verdict = first.verdict ∧ InStep m next next' ∧
      (first'.cost = first.cost ∨ (m < first.cost ∧ m < first'.cost))) ∨
    (m < first.last.window.requests ∧ m < first'.last.window.requests) := by
  have last := last_step taking
  have last' := last_step taking'
  have parser := h.parser.nextEntity
  rcases parser.current_cases with ⟨same, within⟩ | ⟨beyond, beyond'⟩
  · refine .inl ⟨by rw [last, last', same], ?_⟩
    obtain ⟨alike, -⟩ := h.parser.nextEntity_within within
    rcases attempt : s.parser.nextEntity with ⟨outcome, p⟩
    rcases attempt' : t.parser.nextEntity with ⟨outcome', q⟩
    rw [attempt, attempt'] at parser same alike
    obtain rfl : outcome' = outcome := alike
    simp only [Session.step, attempt] at taking
    simp only [Session.step, attempt'] at taking'
    have reached : q.current.window.requests = p.current.window.requests := by rw [same]
    cases outcome' with
    | finished | separator =>
      cases taking
      cases taking'
      exact ⟨rfl, ⟨h.options, h.known, parser⟩, .inl reached⟩
    | accepted entity =>
      have judged : t.judge entity = s.judge entity := by rw [judge, judge, h.options, h.known]
      cases taking
      cases taking'
      exact ⟨congrArg Prod.fst judged, ⟨h.options, congrArg Prod.snd judged, parser⟩, .inl reached⟩
    | refused diagnostic =>
      cases taking
      cases taking'
      refine ⟨rfl, ⟨h.options, h.known, parser.advance⟩, ?_⟩
      rcases parser.advance.current_cases with ⟨dropped, -⟩ | beyond
      · exact .inl (congrArg (·.window.requests) dropped)
      · exact .inr beyond
  · exact .inr ⟨last ▸ beyond, last' ▸ beyond'⟩

/-- A trace starts with the first step, and goes on behind it unless that was the last one. -/
theorem trace_eq_cons (taking : s.step = (first, next)) : ∃ rest, s.trace = first :: rest ∧
    (first.verdict = .finished → rest = []) ∧ (first.verdict ≠ .finished → rest = next.trace) := by
  by_cases ended : first.verdict = .finished
  · exact ⟨[], trace_ended taking ended, fun _ => rfl, fun goesOn => absurd ended goesOn⟩
  · exact ⟨next.trace, trace_more taking ended, fun finished => absurd finished ended, fun _ => rfl⟩

theorem InStep.writes_cons (h : InStep m s t) (taking : s.step = (first, next)) (taking' : t.step = (first', next'))
    {rest rest' : List Step} {voice : Voice} {prompt : String} {cost cost' : Nat}
    (later : first'.verdict = first.verdict → InStep m next next' → ∀ {allowed cost cost' : Nat},
      (cost' = cost ∨ (m < cost ∧ m < cost')) →
        (Run.writesFrom voice prompt cost' (Cut.upTo Step.fails allowed rest')).takeWhile (·.1 ≤ m) =
          (Run.writesFrom voice prompt cost (Cut.upTo Step.fails allowed rest)).takeWhile (·.1 ≤ m))
    (paid : cost' = cost ∨ (m < cost ∧ m < cost')) (allowed : Nat) :
    (Run.writesFrom voice prompt cost' (Cut.upTo Step.fails allowed (first' :: rest'))).takeWhile (·.1 ≤ m) =
      (Run.writesFrom voice prompt cost (Cut.upTo Step.fails allowed (first :: rest))).takeWhile (·.1 ≤ m) := by
  rcases paid with rfl | ⟨beyond, beyond'⟩
  · cases allowed with
    | zero => simp
    | succ allowed =>
      rcases h.step_cases taking taking' with ⟨last, verdict, further, costs⟩ | ⟨beyond, beyond'⟩
      · have fails : first'.fails = first.fails := by rw [Step.fails, Step.fails, verdict]
        simp only [Cut.upTo, fails, Run.writesFrom, last, verdict, List.takeWhile_cons, later verdict further costs]
      · simp [Cut.upTo, Run.writesFrom, List.takeWhile_cons, beyond, beyond']
  · rw [Run.takeWhile_writesFrom beyond, Run.takeWhile_writesFrom beyond']

theorem InStep.writes (h : InStep m s t) (voice : Voice) (prompt : String) (allowed : Nat) {cost cost' : Nat}
    (paid : cost' = cost ∨ (m < cost ∧ m < cost')) :
    (Run.writesFrom voice prompt cost' (Cut.upTo Step.fails allowed t.trace)).takeWhile (·.1 ≤ m) =
      (Run.writesFrom voice prompt cost (Cut.upTo Step.fails allowed s.trace)).takeWhile (·.1 ≤ m) := by
  induction s using trace_induction generalizing t allowed cost cost' with
  | ended s first next taking ended =>
    obtain ⟨rest', trace', nothing, -⟩ := trace_eq_cons (s := t) rfl
    rw [trace_ended taking ended, trace']
    refine h.writes_cons taking rfl (fun verdict _ allowed cost cost' paid => ?_) paid allowed
    obtain rfl := nothing (verdict.trans ended)
    rcases paid with rfl | ⟨beyond, beyond'⟩
    · rfl
    · rw [Run.takeWhile_writesFrom beyond, Run.takeWhile_writesFrom beyond']
  | more s first next taking goesOn ih =>
    obtain ⟨rest', trace', -, behind⟩ := trace_eq_cons (s := t) rfl
    rw [trace_more taking goesOn, trace']
    refine h.writes_cons taking rfl (fun verdict further allowed cost cost' paid => ?_) paid allowed
    obtain rfl := behind (verdict ▸ goesOn)
    exact ih further allowed paid

theorem InStep.run_writes (h : InStep m s t) (voice : Voice) (prompt : String) :
    (t.run.1.writes voice prompt).takeWhile (·.1 ≤ m) = (s.run.1.writes voice prompt).takeWhile (·.1 ≤ m) := by
  rw [Run.writes, Run.writes, s.run_eq_cut.1, t.run_eq_cut.1, h.options]
  exact h.writes voice prompt _ (.inl rfl)

/-- On texts that start with the same characters runs write the same as long as they need no others. -/
theorem writes_congr (options : Options) (file : String) {text text' : String}
    (front : text'.toList.take m = text.toList.take m) (voice : Voice) (prompt : String) :
    ((start options file text').run.1.writes voice prompt).takeWhile (·.1 ≤ m) =
      ((start options file text).run.1.writes voice prompt).takeWhile (·.1 ≤ m) := by
  rcases startAlike_tokenize file front with rfl | alike
  · rfl
  · have sessions : InStep m (start options file text) (start options file text') :=
      ⟨rfl, rfl, rfl, rfl, rfl, alike⟩
    exact sessions.run_writes voice prompt

end Session

/-- Nothing is asked for before it is needed. When a token is given, the characters up to its last one have been
asked for and one more; at the end of a text of `n` characters there have been `n + 1` requests, however often the
token there is given. So on two texts that start with the same characters all that is done with requests for
these only is the same: the tokens and warnings, the outcomes of attempts to read an entity, and what is written. -/
theorem one_character_of_lookahead (file text : String) :
    let pull (text : String) (i : Nat) := (Lexer.start file text).pulled i
    let tokens := (tokenize file text).tokens
    ∃ pieces, LongestMatch text.toList pieces ∧ (lastOffsets 0 pieces).length = tokens.length ∧
      (∀ i last, (lastOffsets 0 pieces)[i]? = some last →
        tokens[i]? = some (pull text i).1 ∧ (pull text i).2.calls = last + 2) ∧
      (∀ i, tokens.length ≤ i →
        (pull text i).1 = (tokenize file text).final ∧ (pull text i).2.calls = text.length + 1) ∧
      (∀ i, (pull text i).1.window.requests = (pull text i).2.calls ∧
        (pull text i).2.warnings = (tokens.take (i + 1)).filterMap Token.warning?) ∧
      ∀ m text', text'.toList.take m = text.toList.take m →
        (∀ i, (pull text i).2.calls ≤ m → (pull text' i).1 = (pull text i).1 ∧
          (pull text' i).2.calls = (pull text i).2.calls ∧ (pull text' i).2.warnings = (pull text i).2.warnings) ∧
        (∀ table nesting (calls : List Parser.Call), (∀ call ∈ calls, call = .advance ∨ call = .nextEntity) →
          let attempt (text : String) := (calls.foldl Parser.after (Parser.ofText table nesting file text)).nextEntity
          (attempt text).2.current.window.requests ≤ m →
            (attempt text').1 = (attempt text).1 ∧ (attempt text').2.current = (attempt text).2.current) ∧
        ∀ options voice,
          let run (text : String) := (Session.start options file text).run.1
          String.join (((run text).writes voice options.prompt).map (·.2)) = (run text).told voice options.prompt ∧
            ((run text').writes voice options.prompt).takeWhile (·.1 ≤ m) =
              ((run text).writes voice options.prompt).takeWhile (·.1 ≤ m) := by
  intro pull tokens
  obtain ⟨_, decomposes⟩ := exists_decomposes text.toList
  obtain ⟨pieces, division⟩ := decomposes.exists_longestMatch
  have length : (lastOffsets 0 pieces).length = tokens.length := length_lastOffsets file division
  have pulls := Lexer.pulled_start file division
  refine ⟨pieces, division, length, fun i last offset => ?_, fun i behind => ?_, fun i => ?_, fun m text' front => ?_⟩
  · obtain ⟨said, -, calls, -⟩ := pulls i
    have inside : i < tokens.length := length ▸ (List.getElem?_eq_some_iff.mp offset).1
    have found : tokens[i]? = some tokens[i] := List.getElem?_eq_getElem inside
    rw [offset] at calls
    refine ⟨?_, calls⟩
    rw [found, said, found]
    rfl
  · obtain ⟨said, -, calls, -⟩ := pulls i
    rw [List.getElem?_eq_none (length ▸ behind), String.length_toList] at calls
    rw [List.getElem?_eq_none behind] at said
    exact ⟨said, calls⟩
  · exact ⟨(pulls i).2.1, (pulls i).2.2.2⟩
  refine ⟨fun i within => ?_, fun table nesting calls only => ?_, fun options voice => ⟨Run.join_writes _, ?_⟩⟩
  · obtain ⟨same, instep⟩ := (Lexer.inStep_start file front).pulled within
    exact ⟨same, instep.calls, instep.warnings⟩
  · exact Parser.attempt_congr table nesting file front only
  · exact Session.writes_congr options file front voice options.prompt

/-- Only one character behind the semicolon has been seen when the number before it is accepted and the next
prompt is written. -/
theorem one_character_of_lookahead_semicolon :
    let attempt (text : String) := (Parser.ofText .standard standardNesting "two" text).nextEntity
    let writes (text : String) :=
      (Session.start .standard "two" text).run.1.writes ⟨true, true⟩ Options.standard.prompt
    ((Lexer.start "two" "1;2").pulled 1).2.calls = 3 ∧
      ((Lexer.start "two" "1;2.0)").pulled 1).1 = ((Lexer.start "two" "1;2").pulled 1).1 ∧
      (attempt "1;2").2.current.window.requests = 3 ∧ (attempt "1;2.0)").1 = (attempt "1;2").1 ∧
      ((writes "1;2").takeWhile (·.1 ≤ 3)).map (·.2) = ["ready> ", "Parsed a top-level expr\n", "ready> "] ∧
      (writes "1;2.0)").takeWhile (·.1 ≤ 3) = (writes "1;2").takeWhile (·.1 ≤ 3) := by
  intro attempt writes
  obtain ⟨_, -, -, -, -, -, alike⟩ := one_character_of_lookahead "two" "1;2"
  obtain ⟨tokens, attempts, writings⟩ := alike 3 "1;2.0)" (by decide +kernel)
  have calls : ((Lexer.start "two" "1;2").pulled 1).2.calls = 3 := by decide +kernel
  have requests : (attempt "1;2").2.current.window.requests = 3 := by decide +kernel
  refine ⟨calls, (tokens 1 (Nat.le_of_eq calls)).1, requests, ?_, by decide +kernel, ?_⟩
  · exact (attempts .standard standardNesting [] (by simp) (Nat.le_of_eq requests)).1
  · exact (writings .standard ⟨true, true⟩).2

end Kaleidoscope
