import Kaleidoscope.Proofs.Grammar.Program
import Kaleidoscope.Proofs.Token.Decomposition

/-! Attempts to read entities, one after another. A parser whose nesting is no obstacle gets through to the
end of the input just when the tokens are a program, and then it accepts the entities of the program in
which each name before an opening parenthesis is a call. -/
namespace Kaleidoscope

namespace Outcome

/-- What an attempt makes of an entity or a semicolon of a program. -/
def ofItem : Option Entity → Outcome
  | none => .separator
  | some entity => .accepted entity

theorem ofItem_injective : Function.Injective ofItem := by
  intro first second same
  cases first <;> cases second <;> simp_all [ofItem]

theorem ofItem_ne_finished (item : Option Entity) : ofItem item ≠ .finished := by
  cases item <;> simp [ofItem]

theorem items_unique {items others : List (Option Entity)}
    (same : items.map ofItem ++ [.finished] = others.map ofItem ++ [.finished]) : items = others :=
  (List.map_inj_right ofItem_injective).mp (List.append_cancel_right same)

theorem refused_not_mem (diagnostic : Diagnostic) (items : List (Option Entity)) :
    .refused diagnostic ∉ items.map ofItem ++ [.finished] := by
  intro member
  simp only [List.mem_append, List.mem_map, List.mem_singleton, reduceCtorEq, or_false] at member
  obtain ⟨item, -, same⟩ := member
  cases item <;> cases same

theorem refused_ne_map_append (diagnostic : Diagnostic) (items : List (Option Entity)) :
    [.refused diagnostic] ≠ items.map ofItem ++ [.finished] :=
  fun same => refused_not_mem diagnostic items (same ▸ List.mem_singleton.mpr rfl)

theorem finished_eq_map_append_iff {items : List (Option Entity)} :
    [.finished] = items.map ofItem ++ [.finished] ↔ items = [] := by
  cases items with
  | nil => simp
  | cons item items => simp

theorem cons_eq_map_append_iff {item : Option Entity} {items : List (Option Entity)}
    {outcomes : List Outcome} :
    ofItem item :: outcomes = items.map ofItem ++ [.finished] ↔
      ∃ later, items = item :: later ∧ outcomes = later.map ofItem ++ [.finished] := by
  cases items with
  | nil => simp [ofItem_ne_finished]
  | cons first later =>
    simp only [List.map_cons, List.cons_append, List.cons.injEq, ofItem_injective.eq_iff]
    constructor
    · intro h
      obtain ⟨rfl, rfl⟩ := h
      exact ⟨later, ⟨rfl, rfl⟩, rfl⟩
    · intro h
      obtain ⟨_, ⟨rfl, rfl⟩, rfl⟩ := h
      exact ⟨rfl, rfl⟩

end Outcome

namespace Parser

open Grammar

variable {p q : Parser} {entity : Entity} {items : List (Option Entity)} {token : Token}
  {rest : List Token}

theorem read_eq_ok_iff {α : Type} {reader : Reader α} {value : α} :
    p.read reader = (.ok value, q) ↔
      ∃ rest, (reader p.ahead).Yields value rest ∧ q = { p.look with ahead := rest } :=
  settle_eq_ok_iff

theorem nextEntity_nil (nothing : p.ahead = []) : p.nextEntity = (.finished, p.look) := by
  simp [nextEntity, nothing]

theorem nextEntity_separator (front : p.ahead = token :: rest)
    (semicolon : token.lexeme = .character ';') :
    p.nextEntity = (.separator, { p.look with ahead := rest }) := by
  simp [nextEntity, front, Token.isChar_iff.mpr semicolon, advance, look]

theorem nextEntity_accepted (front : p.ahead = token :: behind) (other : token.isChar ';' = false)
    (yields : (Grammar.entity p.table p.levels p.ahead).Yields entity rest) :
    p.nextEntity = (.accepted entity, { p.look with ahead := rest }) := by
  have read : p.read (Grammar.entity p.table p.levels) = (.ok entity, { p.look with ahead := rest }) :=
    read_eq_ok_iff.mpr ⟨rest, yields, rfl⟩
  simp only [nextEntity, front, other, Bool.false_eq_true, if_false, read]

theorem nextEntity_refused {expected : Expectation} (front : p.ahead = token :: behind)
    (other : token.isChar ';' = false)
    (fails : (Grammar.entity p.table p.levels p.ahead).Fails expected rest)
    (reached : q = { p.look with ahead := rest }) :
    p.nextEntity = (.refused (q.diagnose expected), q) := by
  obtain ⟨within, stuck⟩ := fails
  have refused : p.read (Grammar.entity p.table p.levels) = (.error (q.diagnose expected), q) := by
    rw [read, stuck, settle, reached]
  simp only [nextEntity, front, other, Bool.false_eq_true, if_false, refused]

/-- All that an attempt can do. -/
theorem nextEntity_cases (p : Parser) :
    (p.ahead = [] ∧ p.nextEntity = (.finished, p.look)) ∨
    (∃ token rest, p.ahead = token :: rest ∧ token.lexeme = .character ';' ∧
      p.nextEntity = (.separator, { p.look with ahead := rest })) ∨
    (∃ entity rest, (Grammar.entity p.table p.levels p.ahead).Yields entity rest ∧
      p.nextEntity = (.accepted entity, { p.look with ahead := rest })) ∨
    ∃ token behind expected rest q, p.ahead = token :: behind ∧ token.isChar ';' = false ∧
      (Grammar.entity p.table p.levels p.ahead).Fails expected rest ∧
        q = { p.look with ahead := rest } ∧ p.nextEntity = (.refused (q.diagnose expected), q) := by
  cases front : p.ahead with
  | nil => exact .inl ⟨rfl, nextEntity_nil front⟩
  | cons token behind =>
    by_cases semicolon : token.isChar ';' = true
    · have semicolon := Token.isChar_iff.mp semicolon
      exact .inr (.inl ⟨token, behind, rfl, semicolon, nextEntity_separator front semicolon⟩)
    · rw [Bool.not_eq_true] at semicolon
      rcases (Grammar.entity p.table p.levels p.ahead).yields_or_fails with
        ⟨entity, rest, yields⟩ | ⟨expected, rest, fails⟩
      · exact .inr (.inr (.inl ⟨entity, rest, front ▸ yields, nextEntity_accepted front semicolon yields⟩))
      · have refused := nextEntity_refused front semicolon fails rfl
        exact .inr (.inr (.inr ⟨token, behind, expected, rest, _, rfl, semicolon, front ▸ fails, rfl, refused⟩))

theorem nextEntity_eq_accepted_iff :
    p.nextEntity = (.accepted entity, q) ↔
      TakesEntity p.table p.levels entity p.ahead q.ahead ∧ q = { p.look with ahead := q.ahead } := by
  constructor
  · intro taking
    rcases p.nextEntity_cases with ⟨-, attempt⟩ | ⟨_, _, -, -, attempt⟩ | ⟨entity, rest, yields, attempt⟩ |
      ⟨_, _, _, _, _, -, -, -, -, attempt⟩
    all_goals
      rw [attempt] at taking
      cases taking
    exact ⟨yields_entity_iff.mp yields, rfl⟩
  · intro h
    obtain ⟨takes, reached⟩ := h
    obtain ⟨token, behind, front, starts⟩ := takes.2.choose_spec.2.head
    have other := (@StartsEntity.no_operator p.table token starts).2
    rw [reached]
    exact nextEntity_accepted front other (yields_entity_iff.mpr takes)

theorem nextEntity_eq_refused_iff {diagnostic : Diagnostic} :
    p.nextEntity = (.refused diagnostic, q) ↔
      (∃ token behind, p.ahead = token :: behind ∧ token.isChar ';' = false) ∧
        ∃ expected, SticksEntity p.table p.levels p.ahead expected q.ahead ∧
          q = { p.look with ahead := q.ahead } ∧ diagnostic = q.diagnose expected := by
  constructor
  · intro taking
    rcases p.nextEntity_cases with ⟨-, attempt⟩ | ⟨_, _, -, -, attempt⟩ | ⟨_, _, -, attempt⟩ |
      ⟨token, behind, expected, rest, q, front, other, fails, reached, attempt⟩
    all_goals
      rw [attempt] at taking
      cases taking
    subst reached
    exact ⟨⟨token, behind, front, other⟩, expected, fails_entity_iff.mp fails, rfl, rfl⟩
  · intro h
    obtain ⟨⟨token, behind, front, other⟩, expected, sticks, reached, rfl⟩ := h
    exact nextEntity_refused front other (fails_entity_iff.mpr sticks) reached

/-- The outcomes of attempts up to the end of the input or the first refusal. -/
def outcomes (p : Parser) : List Outcome :=
  match _taking : p.nextEntity with
  | (.finished, _) => [.finished]
  | (.refused diagnostic, _) => [.refused diagnostic]
  | (.separator, next) => .separator :: next.outcomes
  | (.accepted entity, next) => .accepted entity :: next.outcomes
termination_by p.ahead.length
decreasing_by
  all_goals
    have progress := p.nextEntity_progress
    rw [_taking] at progress
    exact progress.2

theorem outcomes_finished (nothing : p.ahead = []) : p.outcomes = [.finished] := by
  rw [outcomes, nextEntity_nil nothing]

theorem outcomes_separator (taking : p.nextEntity = (.separator, q)) :
    p.outcomes = .separator :: q.outcomes := by
  rw [outcomes, taking]

theorem outcomes_accepted (taking : p.nextEntity = (.accepted entity, q)) :
    p.outcomes = .accepted entity :: q.outcomes := by
  rw [outcomes, taking]

theorem outcomes_refused {diagnostic : Diagnostic} (taking : p.nextEntity = (.refused diagnostic, q)) :
    p.outcomes = [.refused diagnostic] := by
  rw [outcomes, taking]

theorem outcomes_of_entity {depth : Nat} (first : ReadsEntity p.table entity depth p.ahead rest)
    (within : depth ≤ p.levels) (ends : ∀ token ∈ rest.head?, ¬ Joins p.table 0 token) :
    p.outcomes = .accepted entity :: ({ p.look with ahead := rest } : Parser).outcomes := by
  obtain ⟨token, behind, front, starts⟩ := first.head
  have other := (@StartsEntity.no_operator p.table token starts).2
  exact outcomes_accepted (nextEntity_accepted front other (first.yields within ends))

/-- The attempts accept a program in which each name before an opening parenthesis is a call. -/
theorem outcomes_of_program {table : OperatorTable} {tokens : List Token}
    (program : Program table (Lacks '(') tokens items) (same : p.table = table)
    (front : p.ahead = tokens) (deep : tokens.length ≤ p.levels) :
    p.outcomes = items.map .ofItem ++ [.finished] := by
  induction program generalizing p with
  | empty => exact outcomes_finished front
  | separator semicolon _ ih =>
    rw [outcomes_separator (nextEntity_separator front semicolon)]
    have rest := ih (p := { p.look with ahead := _ }) same rfl (Nat.le_of_succ_le deep)
    rw [rest]
    rfl
  | entity first more ih =>
    subst same front
    have bound := first.depth_le
    rw [outcomes_of_entity first (by omega) more.head]
    have rest := ih (p := { p.look with ahead := _ }) rfl rfl (by simp only [levels, look] at *; omega)
    rw [rest]
    rfl

/-- Attempts without a refusal go to the end of the input, and have read such a program. -/
theorem program_of_accepting (accepting : ∀ diagnostic, .refused diagnostic ∉ p.outcomes) :
    ∃ items : List (Option Entity), p.outcomes = items.map .ofItem ++ [.finished] ∧
      Program p.table (Lacks '(') p.ahead items := by
  induction length : p.ahead.length using Nat.strongRecOn generalizing p with
  | ind n ih =>
    subst length
    rcases p.nextEntity_cases with ⟨nothing, -⟩ | ⟨token, rest, front, semicolon, taking⟩ |
      ⟨entity, rest, yields, taking⟩ | ⟨_, _, expected, _, q, -, -, -, -, taking⟩
    · exact ⟨[], outcomes_finished nothing, nothing ▸ .empty⟩
    · simp only [outcomes_separator taking, List.mem_cons, reduceCtorEq, false_or] at accepting
      obtain ⟨items, outcomes, program⟩ := ih rest.length (by simp [front]) accepting rfl
      refine ⟨none :: items, ?_, front ▸ .separator semicolon program⟩
      rw [outcomes_separator taking, outcomes]
      rfl
    · simp only [outcomes_accepted taking, List.mem_cons, reduceCtorEq, false_or] at accepting
      obtain ⟨items, outcomes, program⟩ := ih rest.length yields.shorter accepting rfl
      obtain ⟨-, depth, -, first⟩ := yields_entity_iff.mp yields
      refine ⟨some entity :: items, ?_, .entity first program⟩
      rw [outcomes_accepted taking, outcomes]
      rfl
    · exact absurd (by simp [outcomes_refused taking]) (accepting (q.diagnose expected))

theorem program_of_outcomes (reading : p.outcomes = items.map .ofItem ++ [.finished]) :
    Program p.table (Lacks '(') p.ahead items := by
  obtain ⟨others, outcomes, program⟩ :=
    program_of_accepting fun diagnostic => reading ▸ Outcome.refused_not_mem diagnostic items
  rwa [Outcome.items_unique (reading.symm.trans outcomes)]

/-- With more levels of nesting than tokens, the attempts go without a refusal up to the end of the input
just when the tokens are a program of the grammar, wherever the grammar lets a name stand alone. They then
accept the entities of the only program in which no name before an opening parenthesis stands alone. -/
theorem accepts_programs (table : OperatorTable) (file text : String) (nesting : Int)
    (deep : (tokenize file text).tokens.length < nesting) :
    let tokens := (tokenize file text).tokens
    let outcomes := (ofText table nesting file text).outcomes
    ((∀ diagnostic, .refused diagnostic ∉ outcomes) ↔
      ∃ items, Program table (fun _ => True) tokens items) ∧
    ((∀ diagnostic, .refused diagnostic ∉ outcomes) →
      ∃ items, Program table (Lacks '(') tokens items ∧ outcomes = items.map .ofItem ++ [.finished] ∧
        ∀ others, Program table (Lacks '(') tokens others → others = items) := by
  intro tokens outcomes
  have levels : tokens.length ≤ (ofText table nesting file text).levels := by
    show (tokenize file text).tokens.length ≤ nesting.toNat
    omega
  have reading {items} (program : Program table (Lacks '(') tokens items) :
      outcomes = items.map .ofItem ++ [.finished] :=
    outcomes_of_program program rfl rfl levels
  constructor
  · constructor
    · intro accepting
      obtain ⟨items, -, program⟩ := program_of_accepting accepting
      exact ⟨items, program.mono fun _ _ => trivial⟩
    · intro derivable diagnostic
      obtain ⟨items, program⟩ := derivable
      obtain ⟨items', program⟩ := program.exists_reads
      rw [reading program]
      exact Outcome.refused_not_mem diagnostic items'
  · intro accepting
    obtain ⟨items, outcomes, program⟩ := program_of_accepting accepting
    refine ⟨items, program, outcomes, ?_⟩
    intro others program'
    exact Outcome.items_unique ((reading program').symm.trans outcomes)

/-- Two bare expressions side by side, or one call of the first on the second. -/
theorem accepts_programs_adjacent :
    let tokens := (tokenize "adjacent" "f (x)").tokens
    let outcomes := (ofText .standard 6 "adjacent" "f (x)").outcomes
    tokens.length < 6 ∧ ((∀ diagnostic, .refused diagnostic ∉ outcomes) ↔
      ∃ items, Program .standard (fun _ => True) tokens items) := by
  have deep : ((tokenize "adjacent" "f (x)").tokens.length : Int) < 6 :=
    Int.ofNat_lt.mpr (Nat.lt_succ_of_le (length_tokens_le "adjacent" "f (x)"))
  exact ⟨Int.ofNat_lt.mp deep, (accepts_programs .standard "adjacent" "f (x)" 6 deep).1⟩

end Parser
end Kaleidoscope
