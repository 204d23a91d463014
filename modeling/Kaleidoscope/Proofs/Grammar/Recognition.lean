import Kaleidoscope.Proofs.Grammar.Readers

/-! The readers follow the rules. What a reader yields has a derivation within the levels it was given,
and a derivation within these levels is what the reader yields, provided that nothing behind it could
still belong to it. -/
namespace Kaleidoscope.Grammar

/-- Derivations in which a name before an opening parenthesis is always a call. -/
abbrev Reads (table : OperatorTable) : Phrase → Nat → List Token → List Token → Prop :=
  Derives table (Lacks '(')

namespace Phrase

/-- Nothing behind a phrase can still belong to it. -/
def Ends (table : OperatorTable) (rest : List Token) : Phrase → Prop
  | primary _ => True
  | links _ | expression _ => ∀ token ∈ rest.head?, ¬ Joins table 0 token
  | arguments _ => ∃ right behind, rest = right :: behind ∧ right.lexeme = .character ')'

def ReadBy (table : OperatorTable) (levels : Nat) (tokens rest : List Token) : Phrase → Prop
  | primary e => (Grammar.primary table levels tokens).Yields e rest
  | links found => Linked table 0 (Grammar.primary table levels) tokens found rest
  | expression e => (Grammar.expression table levels tokens).Yields e rest
  | arguments args =>
    ∀ right behind, rest = right :: behind → right.lexeme = .character ')' →
      Listed (Grammar.expression table levels) tokens args behind

end Phrase

variable {table : OperatorTable} {phrase : Phrase} {depth levels : Nat} {tokens rest : List Token}

theorem Starts.not_closing {token : Token} (starts : Starts token) : token.lexeme ≠ .character ')' := by
  intro closing
  simp [Starts, closing] at starts

theorem Derives.lacks_closing {alone : List Token → Prop} (h : Derives table alone phrase depth tokens rest)
    (some : ∀ found, phrase ≠ .links found) : Lacks ')' tokens := by
  obtain ⟨token, behind, rfl, starts⟩ := h.head some
  exact lacks_of_lexeme starts.not_closing

theorem ends_closing {right : Token} (closing : right.lexeme = .character ')') :
    ∀ token ∈ (right :: rest).head?, ¬ Joins table 0 token :=
  not_joins_of_lexeme (closing ▸ OperatorTable.precedence_punctuation rfl)

theorem ends_comma {comma : Token} (separator : comma.lexeme = .character ',') :
    ∀ token ∈ (comma :: rest).head?, ¬ Joins table 0 token :=
  not_joins_of_lexeme (separator ▸ OperatorTable.precedence_punctuation rfl)

theorem Derives.readBy (h : Reads table phrase depth tokens rest) (within : depth ≤ levels)
    (ends : phrase.Ends table rest) : phrase.ReadBy table levels tokens rest := by
  induction h generalizing levels with
  | number literal =>
    obtain ⟨below, rfl⟩ := Nat.exists_eq_add_of_le' within
    exact yields_primaryForm_iff.mpr (.number literal)
  | name word lacks =>
    obtain ⟨below, rfl⟩ := Nat.exists_eq_add_of_le' within
    exact yields_primaryForm_iff.mpr (.name word lacks)
  | emptyCall word opening closing =>
    obtain ⟨below, rfl⟩ := Nat.exists_eq_add_of_le' within
    exact yields_primaryForm_iff.mpr (.emptyCall word opening closing)
  | call word opening inner closing ih =>
    obtain ⟨below, rfl⟩ := Nat.exists_eq_add_of_le' within
    have listed := ih (Nat.le_add_left _ below) ⟨_, _, rfl, closing⟩ _ _ rfl closing
    exact yields_primaryForm_iff.mpr (.call word opening (inner.lacks_closing (by simp)) listed)
  | group opening inner closing ih =>
    obtain ⟨below, rfl⟩ := Nat.exists_eq_add_of_le' within
    have reads := ih (Nat.le_add_left _ below) (ends_closing closing)
    exact yields_primaryForm_iff.mpr (.group opening reads closing)
  | noLinks => exact .stop ends
  | link operator operand more readOperand readMore =>
    obtain ⟨first, later⟩ := Nat.max_le.mp within
    exact .more (joins_zero_iff.mpr operator) (readOperand first trivial) (readMore later ends)
  | expression operand more readOperand readMore =>
    obtain ⟨first, later⟩ := Nat.max_le.mp within
    exact yields_chain_iff.mpr ⟨_, _, _, readOperand first trivial, readMore later ends, rfl⟩
  | lastArgument value ih =>
    rintro right behind rfl closing
    exact .last (ih within (ends_closing closing)) closing
  | argument value separator more readValue readMore =>
    rintro right behind rfl closing
    obtain ⟨first, later⟩ := Nat.max_le.mp within
    have reads := readValue first (ends_comma separator)
    exact .more reads separator (readMore later ends right behind rfl closing)

section Soundness

variable {operand : Reader Expr}

theorem Linked.derives {found : List Link} (run : Linked table 0 operand tokens found rest)
    (sound : ∀ {e tokens rest}, (operand tokens).Yields e rest →
      ∃ depth ≤ levels, Reads table (.primary e) depth tokens rest) :
    ∃ depth ≤ levels, Reads table (.links found) depth tokens rest := by
  induction run with
  | stop ends => exact ⟨0, Nat.zero_le _, .noLinks⟩
  | more joins reads _ ih =>
    obtain ⟨depth, within, derives⟩ := sound reads
    obtain ⟨depth', within', more⟩ := ih
    exact ⟨_, Nat.max_le.mpr ⟨within, within'⟩, .link joins.1 derives more⟩

theorem derives_of_yields_chain {e : Expr} (yields : (chain table operand tokens).Yields e rest)
    (sound : ∀ {e tokens rest}, (operand tokens).Yields e rest →
      ∃ depth ≤ levels, Reads table (.primary e) depth tokens rest) :
    ∃ depth ≤ levels, Reads table (.expression e) depth tokens rest := by
  obtain ⟨first, middle, found, reads, run, rfl⟩ := yields_chain_iff.mp yields
  obtain ⟨depth, within, derives⟩ := sound reads
  obtain ⟨depth', within', more⟩ := run.derives sound
  exact ⟨_, Nat.max_le.mpr ⟨within, within'⟩, .expression derives more⟩

theorem Listed.derives {expression : Reader Expr} {args : List Expr}
    (listed : Listed expression tokens args rest)
    (sound : ∀ {e tokens rest}, (expression tokens).Yields e rest →
      ∃ depth ≤ levels, Reads table (.expression e) depth tokens rest) :
    ∃ depth ≤ levels, ∃ right, right.lexeme = .character ')' ∧
      Reads table (.arguments args) depth tokens (right :: rest) := by
  induction listed with
  | last reads closing =>
    obtain ⟨depth, within, derives⟩ := sound reads
    exact ⟨depth, within, _, closing, .lastArgument derives⟩
  | more reads separator _ ih =>
    obtain ⟨depth, within, derives⟩ := sound reads
    obtain ⟨depth', within', right, closing, more⟩ := ih
    exact ⟨_, Nat.max_le.mpr ⟨within, within'⟩, right, closing, .argument derives separator more⟩

theorem derives_of_yields_primary {e : Expr} (yields : (primary table levels tokens).Yields e rest) :
    ∃ depth ≤ levels, Reads table (.primary e) depth tokens rest := by
  induction levels generalizing e tokens rest with
  | zero => simp [primary] at yields
  | succ levels ih =>
    have sound {e tokens rest} (yields : (expression table levels tokens).Yields e rest) :=
      derives_of_yields_chain yields ih
    cases yields_primaryForm_iff.mp yields with
    | number literal => exact ⟨1, by omega, .number literal⟩
    | name word ends => exact ⟨1, by omega, .name word ends⟩
    | emptyCall word opening closing => exact ⟨1, by omega, .emptyCall word opening closing⟩
    | call word opening _ listed =>
      obtain ⟨depth, within, right, closing, inner⟩ := listed.derives sound
      exact ⟨depth + 1, by omega, .call word opening inner closing⟩
    | group opening reads closing =>
      obtain ⟨depth, within, inner⟩ := sound reads
      exact ⟨depth + 1, by omega, .group opening inner closing⟩

theorem derives_of_yields_expression {e : Expr}
    (yields : (expression table levels tokens).Yields e rest) :
    ∃ depth ≤ levels, Reads table (.expression e) depth tokens rest :=
  derives_of_yields_chain yields derives_of_yields_primary

end Soundness

end Kaleidoscope.Grammar
