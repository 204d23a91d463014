import Kaleidoscope.Operator.Table

/-! What tokens are operators and how tightly they bind. The punctuation of the grammar is never one. -/
namespace Kaleidoscope

theorem Association.mem_of_find? {key : Char} {value : Int} {entries : List (Char × Int)}
    (found : Association.find? key entries = some value) : (key, value) ∈ entries := by
  induction entries with
  | nil => cases found
  | cons entry entries ih =>
    obtain ⟨k, v⟩ := entry
    rw [Association.find?] at found
    split at found
    · next same =>
      cases found
      exact same ▸ List.mem_cons_self
    · exact List.mem_cons_of_mem _ (ih found)

namespace OperatorTable

theorem precedence_cases (table : OperatorTable) (lexeme : Lexeme) :
    table.precedence lexeme = -1 ∨ 0 < table.precedence lexeme := by
  simp only [precedence, binding, noPrecedence]
  split
  · next given same =>
    split
    · next positive => exact .inr positive
    · exact .inl rfl
  · exact .inl rfl

theorem precedence_of_char?_eq_none (table : OperatorTable) {lexeme : Lexeme} (other : lexeme.char? = none) :
    table.precedence lexeme = noPrecedence := by
  rw [precedence, other]
  rfl

theorem precedence_of_get? {table : OperatorTable} {c : Char} {given : Int} (held : table.get? c = some given)
    (positive : 0 < given) : table.precedence (.character c) = given := by
  simp [precedence, Lexeme.char?, held, binding, positive]

theorem precedence_endOfInput (table : OperatorTable) : table.precedence .endOfInput = -1 := rfl

theorem isOperatorCharacter_of_precedence {table : OperatorTable} {lexeme : Lexeme}
    (h : 0 < table.precedence lexeme) :
    ∃ c, lexeme = .character c ∧ isOperatorCharacter c = true := by
  cases lexeme with
  | character c =>
    refine ⟨c, rfl, ?_⟩
    cases found : table.get? c with
    | none => simp [precedence, Lexeme.char?, found, binding, noPrecedence] at h
    | some given => exact table.admissible (c, given) (Association.mem_of_find? found)
  | _ => simp [precedence, Lexeme.char?, binding, noPrecedence] at h

theorem precedence_punctuation {table : OperatorTable} {c : Char} (h : isPunctuation c = true) :
    ¬ 0 < table.precedence (.character c) := by
  intro positive
  obtain ⟨_, same, operator⟩ := isOperatorCharacter_of_precedence positive
  cases same
  simp [isOperatorCharacter, h] at operator

def Binds (table : OperatorTable) (op : String) : Prop :=
  ∃ c : Char, op = c.toString ∧ 0 < table.precedence (.character c)

end OperatorTable
end Kaleidoscope
