import Kaleidoscope.Proofs.Operator.Building
import Kaleidoscope.Proofs.Session.SoleExpression
import Kaleidoscope.Proofs.Token.LoneCharacters
import Kaleidoscope.Proofs.Tree.Rereading

/-! What the validation of operators is good for. It lets just those characters into a table that are always tokens
and that the grammar does not test for; so every operator with a positive precedence can be used, and none is mistaken
for a parenthesis, a comma or a semicolon. -/
namespace Kaleidoscope

open Grammar

/-- A text of one character that is always a token and that the grammar does not use otherwise. -/
def Scalar.IsUsable (key : Scalar) : Prop :=
  ∃ c : Char, key = .text c.toString ∧ IsAlwaysToken c ∧ c ∉ ['(', ')', ',', ';']

variable {c : Char} {table : OperatorTable} {x y : String}

theorem isPunctuation_iff : isPunctuation c = true ↔ c ∈ ['(', ')', ',', ';'] := by
  simp [isPunctuation, or_assoc]

theorem isOperatorCharacter_iff :
    isOperatorCharacter c = true ↔ IsAlwaysToken c ∧ c ∉ ['(', ')', ',', ';'] := by
  rw [isOperatorCharacter, Bool.and_eq_true, Bool.not_eq_true', ← Bool.not_eq_true, isPunctuation_iff,
    isAlwaysToken_iff]

theorem Scalar.isUsable_iff {key : Scalar} :
    key.IsUsable ↔ ∃ op : Char, key = .text op.toString ∧ isOperatorCharacter op = true := by
  simp only [IsUsable, isOperatorCharacter_iff]

namespace OperatorTable

/-- Nothing that the grammar tests for binds, and the end of the input does not either. -/
theorem precedence_reserved {token : Token}
    (reserved : token.lexeme = .endOfInput ∨ ∃ c ∈ ['(', ')', ',', ';'], token.isChar c = true) :
    table.precedence token.lexeme = noPrecedence := by
  rcases reserved with ends | ⟨c, punctuation, same⟩
  · exact table.precedence_of_char?_eq_none (ends ▸ rfl)
  · rw [Token.isChar_iff.mp same]
    exact (table.precedence_cases _).resolve_right (precedence_punctuation (isPunctuation_iff.mpr punctuation))

end OperatorTable

theorem fallsInto_between (left : IsName x) (alone : isLoneCharacter c = true) (right : IsName y) :
    FallsInto (x ++ " " ++ c.toString ++ " " ++ y).toList [.identifier x, .character c, .identifier y] := by
  have behind := FallsInto.lone alone (.layout (c := ' ') rfl (.name right))
  simpa using (FallsInto.name left).append_cons (behind.layout (c := ' ') rfl) rfl

theorem parseExpression_between (operator : 0 < table.precedence (.character c)) (left : IsName x) (right : IsName y)
    (file : String) : ∃ e, parseExpression table file (x ++ " " ++ c.toString ++ " " ++ y) = .ok e ∧
      e.bare = .binary c.toString (.var x none) (.var y none) none := by
  obtain ⟨_, ⟨⟩, allowed⟩ := OperatorTable.isOperatorCharacter_of_precedence operator
  have alone : isLoneCharacter c = true := (Bool.and_eq_true_iff.mp allowed).1
  obtain ⟨same, -⟩ := (fallsInto_between left alone right).tokens file
  obtain ⟨first, behind, tokens, leftName, same⟩ := List.map_eq_cons_iff.mp same
  obtain ⟨sign, behind, rfl, character, same⟩ := List.map_eq_cons_iff.mp same
  obtain ⟨last, rfl, rightName⟩ := List.map_eq_singleton_iff.mp same
  have binds : 0 < table.precedence sign.lexeme := character ▸ operator
  have operand : Reads table (.primary (.var y (some last.location))) 1 [last] [] := .name rightName (by simp [Lacks])
  have reads := Derives.binary (.name leftName (lacks_opening_of_operator binds)) binds operand
  refine ⟨_, parseExpression_eq_ok_iff.mpr ⟨by simp [Phrase.Ends], 1, by decide, tokens ▸ reads⟩, ?_⟩
  simp [Expr.bare, character, Lexeme.text]

open OperatorTable

/-- A mapping to integers makes a table just when each key is a text of one character that is the token wherever a
token is looked for at it, and that is no parenthesis, comma or semicolon. The table holds the mapping; each operator
with a positive precedence can stand between any two names, and nothing that the grammar tests for has one. The same
decides whether the mapping can be laid over a table. Built entry by entry in memory, the tables and the faults are
the same, and no table that was there before is changed, even if the mapping is refused. -/
theorem validation_fits_scanner_and_grammar (mapping : List (Scalar × Int)) :
    ((∃ table, ofScalars (integral mapping) = .ok table) ↔ ∀ key ∈ Association.keys mapping, key.IsUsable) ∧
    (∀ table, ofScalars (integral mapping) = .ok table →
      table.toScalars = Association.insertAll [] (integral mapping) ∧
      (∀ c precedence, table.get? c = some precedence → 0 < precedence → ∀ x y, IsName x → IsName y → ∀ file,
        ∃ e, parseExpression table file (x ++ " " ++ c.toString ++ " " ++ y) = .ok e ∧
          e.bare = .binary c.toString (.var x none) (.var y none) none) ∧
      ∀ token : Token, (token.lexeme = .endOfInput ∨ ∃ c ∈ ['(', ')', ',', ';'], token.isChar c = true) →
        table.precedence token.lexeme = noPrecedence) ∧
    (∀ memory : Memory,
      let built := memory.build (Association.insertAll [] (integral mapping))
      Memory.Holds built (ofScalars (integral mapping)) ∧ memory.Keeps built.2) ∧
    ∀ base : OperatorTable,
      ((∃ table, base.extend (integral mapping) = .ok table) ↔ ∀ key ∈ Association.keys mapping, key.IsUsable) ∧
      ∀ (memory : Memory) (address : Nat), memory.at? address = some base.toScalars →
        let built := memory.override address (integral mapping)
        Memory.Holds built (base.extend (integral mapping)) ∧ memory.Keeps built.2 := by
  simp only [Scalar.isUsable_iff]
  refine ⟨exists_ofScalars_integral_iff mapping, fun table made => ⟨toScalars_of_ofScalars made, ?_, ?_⟩, ?_, ?_⟩
  · intro c precedence held positive x y left right file
    exact parseExpression_between (precedence_of_get? held positive ▸ positive) left right file
  · exact fun token reserved => precedence_reserved reserved
  · exact fun memory => ⟨memory.build_mapping _, memory.build_keeps _⟩
  · intro base
    refine ⟨base.exists_extend_integral_iff mapping, fun memory address there => ?_⟩
    exact ⟨Memory.override_holds there _, memory.override_keeps address _⟩

/-- A mapping of two operators makes a table with which one of them can be used and a semicolon still is no operator; a
parenthesis cannot be laid over the standard table, which stays in memory as it is. -/
theorem validation_fits_scanner_and_grammar_of_times :
    let mapping := [(Scalar.text "×", (40 : Int)), (.text "%", 0)]
    let parenthesis := [(Scalar.text "(", (1 : Int))]
    let memory : Memory := ⟨[standard.toScalars]⟩
    let semicolon : Token := ⟨.character ';', ⟨"product", 1, 6⟩, .start, none⟩
    (∃ table, ofScalars (integral mapping) = .ok table ∧ table.get? '×' = some 40 ∧ (0 : Int) < 40 ∧
      IsName "a" ∧ IsName "b" ∧ (∃ e, parseExpression table "product" "a × b" = .ok e ∧
        e.bare = .binary "×" (.var "a" none) (.var "b" none) none) ∧
      semicolon.isChar ';' = true ∧ table.precedence semicolon.lexeme = noPrecedence) ∧
    memory.at? 0 = some standard.toScalars ∧
      (¬ ∃ table, standard.extend (integral parenthesis) = .ok table) ∧
        (memory.override 0 (integral parenthesis)).2.at? 0 = some standard.toScalars := by
  intro mapping parenthesis memory semicolon
  have there : memory.at? 0 = some standard.toScalars := rfl
  have left : IsName "a" := .ofLetter rfl rfl
  have right : IsName "b" := .ofLetter rfl rfl
  have reserved : semicolon.isChar ';' = true := rfl
  obtain ⟨table, made, held⟩ : ∃ table, ofScalars (integral mapping) = .ok table ∧ table.get? '×' = some 40 :=
    ⟨(empty.insert '×' 40 rfl).insert '%' 0 rfl, rfl, rfl⟩
  obtain ⟨-, usable, unbound⟩ := (validation_fits_scanner_and_grammar mapping).2.1 table made
  obtain ⟨decided, overridden⟩ := (validation_fits_scanner_and_grammar parenthesis).2.2.2 standard
  refine ⟨⟨table, made, held, by decide, left, right, usable '×' 40 held (by decide) "a" "b" left right "product",
    reserved, unbound semicolon (.inr ⟨';', by simp, reserved⟩)⟩, there, fun made => ?_,
    (overridden memory 0 there).2 0 _ there⟩
  obtain ⟨c, same, -, free⟩ := decided.mp made (.text "(") List.mem_cons_self
  obtain rfl : '(' = c := toString_injective (Scalar.text.inj same)
  exact free List.mem_cons_self

end Kaleidoscope
