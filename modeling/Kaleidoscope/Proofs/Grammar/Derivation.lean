import Kaleidoscope.Proofs.Grammar.Links

/-! The grammar of expressions as rules that know nothing of a parser, and the readers as its decision
procedures. A derivation carries its depth of nesting, so that the levels a reader is given decide
whether it gets through; a name before an opening parenthesis is the one point where the rules leave a
choice, and the readers always take it for a call. -/
namespace Kaleidoscope.Grammar

def Lacks (c : Char) (tokens : List Token) : Prop :=
  ∀ token ∈ tokens.head?, token.lexeme ≠ .character c

inductive Phrase where
  | primary (e : Expr)
  | links (found : List Link)
  | expression (e : Expr)
  | arguments (args : List Expr)

/-- The tokens before `rest` are a phrase of this depth. The tokens behind a name decide whether it may
stand alone, that is, be a variable. -/
inductive Derives (table : OperatorTable) (alone : List Token → Prop) :
    Phrase → Nat → List Token → List Token → Prop where
  | number (literal : token.lexeme = .number value) :
      Derives table alone (.primary (.number value (some token.location))) 1 (token :: rest) rest
  | name (word : token.lexeme = .identifier name) (ends : alone rest) :
      Derives table alone (.primary (.var name (some token.location))) 1 (token :: rest) rest
  | emptyCall (word : token.lexeme = .identifier name) (opening : left.lexeme = .character '(')
      (closing : right.lexeme = .character ')') :
      Derives table alone (.primary (.call name [] (some token.location))) 1
        (token :: left :: right :: rest) rest
  | call (word : token.lexeme = .identifier name) (opening : left.lexeme = .character '(')
      (inner : Derives table alone (.arguments args) depth tokens (right :: rest))
      (closing : right.lexeme = .character ')') :
      Derives table alone (.primary (.call name args (some token.location))) (depth + 1)
        (token :: left :: tokens) rest
  | group (opening : left.lexeme = .character '(')
      (inner : Derives table alone (.expression e) depth tokens (right :: rest))
      (closing : right.lexeme = .character ')') :
      Derives table alone (.primary e) (depth + 1) (left :: tokens) rest
  | noLinks : Derives table alone (.links []) 0 tokens tokens
  | link (operator : 0 < table.precedence op.lexeme)
      (operand : Derives table alone (.primary e) depth tokens middle)
      (more : Derives table alone (.links found) depth' middle rest) :
      Derives table alone (.links (⟨op, table.precedence op.lexeme, e⟩ :: found)) (max depth depth')
        (op :: tokens) rest
  | expression (first : Derives table alone (.primary e) depth tokens middle)
      (more : Derives table alone (.links found) depth' middle rest) :
      Derives table alone (.expression (Chain.reference e found)) (max depth depth') tokens rest
  | lastArgument (value : Derives table alone (.expression e) depth tokens rest) :
      Derives table alone (.arguments [e]) depth tokens rest
  | argument (value : Derives table alone (.expression e) depth tokens (comma :: middle))
      (separator : comma.lexeme = .character ',')
      (more : Derives table alone (.arguments args) depth' middle rest) :
      Derives table alone (.arguments (e :: args)) (max depth depth') tokens rest

def Starts (token : Token) : Prop :=
  match token.lexeme with
  | .identifier _ | .number _ | .character '(' => True
  | _ => False

theorem Starts.eq_opening {token : Token} {c : Char} (starts : Starts token)
    (lexeme : token.lexeme = .character c) : c = '(' := by
  simp only [Starts, lexeme] at starts
  split at starts <;> simp_all

variable {table : OperatorTable} {alone : List Token → Prop} {phrase : Phrase} {depth levels : Nat}
  {tokens rest : List Token}

theorem Derives.head (h : Derives table alone phrase depth tokens rest)
    (some : ∀ found, phrase ≠ .links found) : ∃ token behind, tokens = token :: behind ∧ Starts token := by
  induction h with
  | number literal => exact ⟨_, _, rfl, by simp [Starts, literal]⟩
  | name word _ => exact ⟨_, _, rfl, by simp [Starts, word]⟩
  | emptyCall word _ _ => exact ⟨_, _, rfl, by simp [Starts, word]⟩
  | call word _ _ _ _ => exact ⟨_, _, rfl, by simp [Starts, word]⟩
  | group opening _ _ _ => exact ⟨_, _, rfl, by simp [Starts, opening]⟩
  | noLinks => exact absurd rfl (some _)
  | link _ _ _ _ _ => exact absurd rfl (some _)
  | expression _ _ ih _ => exact ih (by simp)
  | lastArgument _ ih => exact ih (by simp)
  | argument _ _ _ ih _ => exact ih (by simp)

theorem Derives.ne_nil (h : Derives table alone phrase depth tokens rest)
    (some : ∀ found, phrase ≠ .links found) : tokens ≠ [] := by
  obtain ⟨token, behind, rfl, -⟩ := h.head some
  exact List.cons_ne_nil token behind

/-- Every level of nesting takes a token. -/
theorem Derives.depth_le (h : Derives table alone phrase depth tokens rest) :
    depth + rest.length ≤ tokens.length := by
  induction h <;> grind

theorem Derives.length_le (h : Derives table alone phrase depth tokens rest) :
    rest.length ≤ tokens.length :=
  Nat.le_of_add_left_le h.depth_le

theorem lacks_of_lexeme {c : Char} {token : Token} (h : token.lexeme ≠ .character c) :
    Lacks c (token :: tokens) := by
  simpa [Lacks] using h

theorem not_joins_of_lexeme {token : Token} {least : Int} (h : ¬ 0 < table.precedence token.lexeme) :
    ∀ t ∈ (token :: tokens).head?, ¬ Joins table least t := by
  simpa [Joins] using fun positive => absurd positive h

end Kaleidoscope.Grammar
