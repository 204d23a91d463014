import Kaleidoscope.Proofs.Grammar.Relocation

/-! Attempts that go on after a refusal. The token that does not fit is dropped, and reading goes on behind it.
No attempt reads beyond a semicolon, so that whatever stands before one changes nothing behind it. -/
namespace Kaleidoscope

def Outcome.left (tokens : List Token) : Outcome → List Token
  | .refused _ => tokens.tail
  | _ => tokens

structure Token.Alike (token other : Token) : Prop where
  lexeme : other.lexeme = token.lexeme
  location : other.location = token.location
  sourceLine : other.sourceLine? = token.sourceLine?

namespace Parser

open Grammar

/-- An attempt, with the token that does not fit dropped after a refusal. -/
def recover (p : Parser) : Outcome × Parser :=
  let (outcome, q) := p.nextEntity
  (outcome, { q with ahead := outcome.left q.ahead })

variable {p q : Parser} {outcome : Outcome} {entity : Entity} {expected : Expectation} {token : Token}
  {behind rest stuck : List Token}

theorem recover_nil (nothing : p.ahead = []) : p.recover = (.finished, p.look) := by
  rw [recover, nextEntity_nil nothing]
  rfl

theorem recover_separator (front : p.ahead = token :: rest) (semicolon : token.lexeme = .character ';') :
    p.recover = (.separator, { p.look with ahead := rest }) := by
  rw [recover, nextEntity_separator front semicolon]
  rfl

theorem recover_accepted (takes : TakesEntity p.table p.levels entity p.ahead rest) :
    p.recover = (.accepted entity, { p.look with ahead := rest }) := by
  have taking : p.nextEntity = (.accepted entity, { p.look with ahead := rest }) :=
    nextEntity_eq_accepted_iff.mpr ⟨takes, rfl⟩
  rw [recover, taking]
  rfl

theorem recover_refused (front : p.ahead = token :: behind) (other : token.isChar ';' = false)
    (sticks : SticksEntity p.table p.levels p.ahead expected stuck)
    (reached : q = { p.look with ahead := stuck }) :
    p.recover = (.refused (q.diagnose expected), { p.look with ahead := stuck.tail }) := by
  rw [recover, nextEntity_refused front other (fails_entity_iff.mpr sticks) reached, reached]
  rfl

theorem recover_cases (p : Parser) :
    (p.ahead = [] ∧ p.recover = (.finished, p.look)) ∨
    (∃ token rest, p.ahead = token :: rest ∧ token.lexeme = .character ';' ∧
      p.recover = (.separator, { p.look with ahead := rest })) ∨
    (∃ entity rest, TakesEntity p.table p.levels entity p.ahead rest ∧
      p.recover = (.accepted entity, { p.look with ahead := rest })) ∨
    ∃ token behind expected stuck q, p.ahead = token :: behind ∧ token.isChar ';' = false ∧
      SticksEntity p.table p.levels p.ahead expected stuck ∧ q = { p.look with ahead := stuck } ∧
        p.recover = (.refused (q.diagnose expected), { p.look with ahead := stuck.tail }) := by
  rcases p.nextEntity_cases with ⟨nothing, -⟩ | ⟨token, rest, front, semicolon, -⟩ |
    ⟨entity, rest, yields, -⟩ | ⟨token, behind, expected, stuck, q, front, other, fails, reached, -⟩
  · exact .inl ⟨nothing, recover_nil nothing⟩
  · exact .inr (.inl ⟨token, rest, front, semicolon, recover_separator front semicolon⟩)
  · have takes := yields_entity_iff.mp yields
    exact .inr (.inr (.inl ⟨entity, rest, takes, recover_accepted takes⟩))
  · have sticks := fails_entity_iff.mp fails
    exact .inr (.inr (.inr ⟨token, behind, expected, stuck, q, front, other, sticks, reached,
      recover_refused front other sticks reached⟩))

theorem recover_shorter (p : Parser) (goesOn : p.recover.1 ≠ .finished) :
    p.recover.2.ahead.length < p.ahead.length := by
  have progress := p.nextEntity_progress
  rcases attempt : p.nextEntity with ⟨outcome, q⟩
  simp only [recover, attempt] at progress goesOn ⊢
  cases outcome with
  | finished => exact absurd rfl goesOn
  | separator | accepted _ => exact progress.2
  | refused _ =>
    obtain ⟨-, some, most⟩ := progress
    have positive := List.length_pos_iff.mpr some
    simp only [Outcome.left, List.length_tail]
    omega

/-- The outcomes of the attempts up to the end of the input. -/
def attempts (p : Parser) : List Outcome :=
  if _ended : p.recover.1 = .finished then [] else p.recover.1 :: p.recover.2.attempts
termination_by p.ahead.length
decreasing_by exact p.recover_shorter _ended

theorem attempts_finished (ended : p.recover.1 = .finished) : p.attempts = [] := by
  rw [attempts, dif_pos ended]

theorem attempts_more (goesOn : p.recover.1 ≠ .finished) :
    p.attempts = p.recover.1 :: p.recover.2.attempts := by
  rw [attempts, dif_neg goesOn]

theorem attempts_cons (taking : p.recover = (outcome, q)) (goesOn : outcome ≠ .finished) :
    p.attempts = outcome :: q.attempts := by
  have first := p.attempts_more
  rw [taking] at first
  exact first goesOn

section Bar

variable {bar bar' : Token} {front tail tail' : List Token}

theorem before_bar {used : List Token} (free : FreeOf ';' used) (semicolon : bar.lexeme = .character ';')
    (whole : front ++ bar :: tail = used ++ rest) :
    ∃ left, front = used ++ left ∧ rest = left ++ bar :: tail := by
  rcases List.append_eq_append_iff.mp whole with ⟨more, rfl, same⟩ | ⟨left, same, tokens⟩
  · cases more with
    | nil => exact ⟨[], by simp, same.symm⟩
    | cons first more =>
      obtain ⟨rfl, -⟩ := List.cons.inj same
      exact absurd semicolon (free bar (by simp))
  · exact ⟨left, same, tokens⟩

theorem sameHead_bar (alike : bar.Alike bar') (left : List Token) :
    SameHead (left ++ bar :: tail) (left ++ bar' :: tail') := by
  have same : SameHead (bar :: tail) (bar' :: tail') := congrArg some alike.lexeme
  exact same.append left

theorem diagnose_bar (alike : bar.Alike bar') (nesting : q.nesting = p.nesting) {left : List Token}
    (ahead : p.ahead = left ++ bar :: tail) (ahead' : q.ahead = left ++ bar' :: tail') :
    q.diagnose expected = p.diagnose expected := by
  cases left with
  | nil =>
    simp [diagnose, current, ahead, ahead', nesting, Token.description, alike.lexeme, alike.location,
      alike.sourceLine]
  | cons token left => simp [diagnose, current, ahead, ahead', nesting]

/-- Two parsers before the same tokens and then a semicolon do the same: they come closer to the semicolon, or
they come behind it. -/
theorem recover_bar (table : q.table = p.table) (nesting : q.nesting = p.nesting)
    (semicolon : bar.lexeme = .character ';') (alike : bar.Alike bar') (ahead : p.ahead = front ++ bar :: tail)
    (ahead' : q.ahead = front ++ bar' :: tail') :
    ∃ outcome, outcome ≠ .finished ∧
      ((∃ left, left.length < front.length ∧
          p.recover = (outcome, { p.look with ahead := left ++ bar :: tail }) ∧
          q.recover = (outcome, { q.look with ahead := left ++ bar' :: tail' })) ∨
        p.recover = (outcome, { p.look with ahead := tail }) ∧
          q.recover = (outcome, { q.look with ahead := tail' })) := by
  have levels : q.levels = p.levels := congrArg Int.toNat nesting
  rcases p.recover_cases with ⟨nothing, -⟩ | ⟨token, rest, first, separator, attempt⟩ |
    ⟨entity, rest, takes, attempt⟩ | ⟨token, behind, expected, stuck, p', first, other, sticks, reached, attempt⟩
  · simp [nothing] at ahead
  · refine ⟨.separator, by simp, ?_⟩
    cases front with
    | nil =>
      obtain ⟨rfl, rfl⟩ := List.cons.inj (first.symm.trans ahead)
      exact .inr ⟨attempt, recover_separator ahead' (alike.lexeme.trans semicolon)⟩
    | cons first' left =>
      obtain ⟨rfl, rfl⟩ := List.cons.inj (first.symm.trans ahead)
      exact .inl ⟨left, Nat.lt_succ_self _, attempt, recover_separator ahead' separator⟩
  · have shorter := p.recover_shorter (by simp [attempt])
    obtain ⟨used, split, free, moved⟩ := takes.split
    obtain ⟨left, rfl, rfl⟩ := before_bar free semicolon (ahead.symm.trans split)
    have takes' := moved (left ++ bar' :: tail') (sameHead_bar alike left)
    rw [← table, ← levels, ← List.append_assoc, ← ahead'] at takes'
    refine ⟨.accepted entity, by simp, .inl ⟨left, ?_, attempt, recover_accepted takes'⟩⟩
    simp [attempt, ahead] at shorter ⊢
    omega
  · obtain ⟨behind', first'⟩ : ∃ behind', q.ahead = token :: behind' := by
      cases front with
      | nil =>
        obtain ⟨rfl, -⟩ := List.cons.inj (first.symm.trans ahead)
        simp [Token.isChar, semicolon] at other
      | cons first' front =>
        obtain ⟨rfl, -⟩ := List.cons.inj (first.symm.trans ahead)
        exact ⟨_, ahead'⟩
    obtain ⟨used, split, free, moved⟩ := sticks.split
    obtain ⟨left, rfl, rfl⟩ := before_bar free semicolon (ahead.symm.trans split)
    have sticks' := moved (left ++ bar' :: tail') (sameHead_bar alike left)
    rw [← table, ← levels, ← List.append_assoc, ← ahead'] at sticks'
    obtain ⟨q', reached'⟩ : ∃ q' : Parser, q' = { q.look with ahead := left ++ bar' :: tail' } := ⟨_, rfl⟩
    have attempt' := recover_refused first' other sticks' reached'
    have same : q'.diagnose expected = p'.diagnose expected :=
      diagnose_bar alike (by simpa [reached, reached', look] using nesting) (by rw [reached]) (by rw [reached'])
    rw [same] at attempt'
    refine ⟨.refused (p'.diagnose expected), by simp, ?_⟩
    cases left with
    | nil => exact .inr ⟨attempt, attempt'⟩
    | cons dropped left => exact .inl ⟨left, by simp; omega, attempt, attempt'⟩

/-- The attempts up to a semicolon are the same whatever stands behind it, and those behind it are the same
whatever stands before it. -/
theorem attempts_bar (table : q.table = p.table) (nesting : q.nesting = p.nesting)
    (semicolon : bar.lexeme = .character ';') (alike : bar.Alike bar') (ahead : p.ahead = front ++ bar :: tail)
    (ahead' : q.ahead = front ++ bar' :: tail') :
    ∃ outcomes, p.attempts = outcomes ++ ({ p.look with ahead := tail } : Parser).attempts ∧
      q.attempts = outcomes ++ ({ q.look with ahead := tail' } : Parser).attempts := by
  induction length : front.length using Nat.strongRecOn generalizing front p q with
  | ind n ih =>
    subst length
    obtain ⟨outcome, goesOn, ⟨left, closer, attempt, attempt'⟩ | ⟨attempt, attempt'⟩⟩ :=
      recover_bar table nesting semicolon alike ahead ahead'
    · obtain ⟨outcomes, first, second⟩ := ih left.length closer
        (p := { p.look with ahead := left ++ bar :: tail }) (q := { q.look with ahead := left ++ bar' :: tail' })
        table nesting rfl rfl rfl
      refine ⟨outcome :: outcomes, ?_, ?_⟩
      · rw [attempts_cons attempt goesOn, first]
        rfl
      · rw [attempts_cons attempt' goesOn, second]
        rfl
    · exact ⟨[outcome], attempts_cons attempt goesOn, attempts_cons attempt' goesOn⟩

end Bar

section Relocation

variable {move : Location → Location} {f : Token → Token}

theorem Relocates.recover (h : Relocates move f p q) :
    q.recover.1 = p.recover.1.relocate move ∧ Relocates move f p.recover.2 q.recover.2 := by
  obtain ⟨same, further⟩ := h.nextEntity
  refine ⟨same, further.further ⟨rfl, rfl, rfl⟩ ⟨rfl, rfl, rfl⟩ ?_ ?_⟩
  · simp only [Parser.recover]
    cases p.nextEntity.1 with
    | refused _ => exact List.tail_suffix _
    | _ => exact List.suffix_refl _
  · simp only [Parser.recover, same, further.ahead]
    cases p.nextEntity.1 <;> simp [Outcome.relocate, Outcome.left]

theorem Relocates.attempts (h : Relocates move f p q) : q.attempts = p.attempts.map (Outcome.relocate move) := by
  induction p using Parser.attempts.induct generalizing q with
  | case1 p ended =>
    obtain ⟨same, -⟩ := h.recover
    have ended' : q.recover.1 = .finished := by
      rw [same, ended]
      rfl
    rw [attempts_finished ended, attempts_finished ended', List.map_nil]
  | case2 p goesOn ih =>
    obtain ⟨same, further⟩ := h.recover
    have goesOn' : q.recover.1 ≠ .finished := by
      rw [same]
      cases outcome : p.recover.1 <;> simp_all [Outcome.relocate]
    rw [attempts_more goesOn, attempts_more goesOn', same, ih further, List.map_cons]

end Relocation

end Parser
end Kaleidoscope
