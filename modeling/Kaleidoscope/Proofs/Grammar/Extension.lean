import Kaleidoscope.Proofs.Grammar.Acceptance

/-! Tables with more operators. What is read under a table is read in the same way under one that keeps its operators,
because all that binds in it are operators and what follows it never can become one. -/
namespace Kaleidoscope

namespace OperatorTable

variable {table base : OperatorTable}

/-- The operators of a table keep their precedence, whatever becomes of what is no operator. -/
def Extends (table base : OperatorTable) : Prop :=
  ∀ c, 0 < base.precedence (.character c) → table.precedence (.character c) = base.precedence (.character c)

theorem Extends.precedence_eq (extended : table.Extends base) {lexeme : Lexeme}
    (operator : 0 < base.precedence lexeme) : table.precedence lexeme = base.precedence lexeme := by
  obtain ⟨c, rfl, -⟩ := isOperatorCharacter_of_precedence operator
  exact extended c operator

theorem extends_insert {op : Char} (h : isOperatorCharacter op = true) (free : ¬ 0 < base.precedence (.character op))
    (precedence : Int) : (base.insert op precedence h).Extends base := by
  intro c operator
  have other : c ≠ op := by
    rintro rfl
    exact free operator
  have kept : (base.insert op precedence h).get? c = base.get? c := Association.find?_insert_other other _ _
  simp only [OperatorTable.precedence, Lexeme.char?, Option.bind_some, kept]

end OperatorTable

namespace Grammar

variable {table base : OperatorTable} {alone : List Token → Prop} {phrase : Phrase} {entity : Entity}
  {depth levels : Nat} {tokens rest : List Token}

theorem Derives.extend (extended : table.Extends base) (h : Derives base alone phrase depth tokens rest) :
    Derives table alone phrase depth tokens rest := by
  induction h with
  | number literal => exact .number literal
  | name word ends => exact .name word ends
  | emptyCall word opening closing => exact .emptyCall word opening closing
  | call word opening _ closing inner => exact .call word opening inner closing
  | group opening _ closing inner => exact .group opening inner closing
  | noLinks => exact .noLinks
  | link operator _ _ operand more =>
    have same := extended.precedence_eq operator
    rw [← same]
    exact .link (same ▸ operator) operand more
  | expression _ _ first more => exact .expression first more
  | lastArgument _ value => exact .lastArgument value
  | argument _ separator _ value more => exact .argument value separator more

theorem DerivesEntity.extend (extended : table.Extends base) (h : DerivesEntity base alone entity depth tokens rest) :
    DerivesEntity table alone entity depth tokens rest := by
  cases h with
  | definition keyword signature body => exact .definition keyword signature (body.extend extended)
  | declaration keyword signature => exact .declaration keyword signature
  | expression body => exact .expression (body.extend extended)

def Closed (tokens : List Token) : Prop :=
  ∀ token ∈ tokens.head?, ∀ table : OperatorTable, ¬ 0 < table.precedence token.lexeme

theorem TakesEntity.extend (extended : table.Extends base) (closed : Closed rest)
    (h : TakesEntity base levels entity tokens rest) : TakesEntity table levels entity tokens rest := by
  obtain ⟨-, depth, within, reads⟩ := h
  refine ⟨?_, depth, within, reads.extend extended⟩
  cases entity with
  | declaration _ => exact trivial
  | function _ => exact fun token next joins => closed token next table (joins_zero_iff.mp joins)

end Grammar

namespace Parser

open Grammar

variable {p q : Parser} {table : OperatorTable} {outcome : Outcome}

def withTable (p : Parser) (table : OperatorTable) : Parser := { p with table := table }

/-- An attempt that is not refused starts at the end of the input, a semicolon or the first token of an entity. -/
theorem closed_of_attempt (taking : p.nextEntity = (outcome, q)) (fine : ∀ diagnostic, outcome ≠ .refused diagnostic) :
    Closed p.ahead := by
  intro token next table
  rcases p.nextEntity_cases with ⟨nothing, -⟩ | ⟨first, rest, front, semicolon, -⟩ | ⟨entity, rest, yields, -⟩ |
    ⟨_, _, _, _, _, -, -, -, -, attempt⟩
  · simp [nothing] at next
  · rw [front] at next
    cases next
    rw [semicolon]
    exact OperatorTable.precedence_punctuation rfl
  · obtain ⟨-, depth, -, reads⟩ := yields_entity_iff.mp yields
    obtain ⟨first, behind, front, starts⟩ := reads.head
    rw [front] at next
    cases next
    exact starts.no_operator.1
  · rw [attempt] at taking
    cases taking
    exact absurd rfl (fine _)

/-- An attempt that is not refused has the same outcome if the next one is not refused either. -/
theorem nextEntity_withTable (extended : table.Extends p.table) (taking : p.nextEntity = (outcome, q))
    (fine : ∀ diagnostic, outcome ≠ .refused diagnostic) (closed : Closed q.ahead) :
    (p.withTable table).nextEntity = (outcome, q.withTable table) := by
  rcases p.nextEntity_cases with ⟨nothing, attempt⟩ | ⟨first, rest, front, semicolon, attempt⟩ |
    ⟨entity, rest, yields, attempt⟩ | ⟨_, _, _, _, _, -, -, -, -, attempt⟩ <;> cases attempt.symm.trans taking
  · exact nextEntity_nil nothing
  · exact nextEntity_separator front semicolon
  · exact nextEntity_eq_accepted_iff.mpr ⟨(yields_entity_iff.mp yields).extend extended closed, rfl⟩
  · exact absurd rfl (fine _)

end Parser
end Kaleidoscope
