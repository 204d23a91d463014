import Kaleidoscope.Proofs.Grammar.Entity

/-! Programs as sequences of entities and semicolons. Nothing marks where an entity ends, so a name may end
one and the parenthesis behind it start the next, or both may be a call. Whatever has a derivation of the
first kind has one of the second: the call takes the group as its argument and goes on behind it. -/
namespace Kaleidoscope.Grammar

/-- The tokens are entities and semicolons one after another; a semicolon counts as no entity. -/
inductive Program (table : OperatorTable) (alone : List Token → Prop) :
    List Token → List (Option Entity) → Prop where
  | empty : Program table alone [] []
  | separator (semicolon : token.lexeme = .character ';') (more : Program table alone rest items) :
      Program table alone (token :: rest) (none :: items)
  | entity (first : DerivesEntity table alone e depth tokens rest) (more : Program table alone rest items) :
      Program table alone tokens (some e :: items)

variable {table : OperatorTable} {alone wider : List Token → Prop} {phrase : Phrase} {e : Expr}
  {found : List Link} {entity : Entity} {items : List (Option Entity)} {depth depth' : Nat}
  {left right : Token} {tokens behind middle rest : List Token}

theorem Derives.mono (h : Derives table alone phrase depth tokens rest)
    (wide : ∀ tokens, alone tokens → wider tokens) : Derives table wider phrase depth tokens rest := by
  induction h with
  | number literal => exact .number literal
  | name word ends => exact .name word (wide _ ends)
  | emptyCall word opening closing => exact .emptyCall word opening closing
  | call word opening _ closing ih => exact .call word opening ih closing
  | group opening _ closing ih => exact .group opening ih closing
  | noLinks => exact .noLinks
  | link operator _ _ operand more => exact .link operator operand more
  | expression _ _ operand more => exact .expression operand more
  | lastArgument _ ih => exact .lastArgument ih
  | argument _ separator _ value more => exact .argument value separator more

theorem Program.mono (h : Program table alone tokens items)
    (wide : ∀ tokens, alone tokens → wider tokens) : Program table wider tokens items := by
  induction h with
  | empty => exact .empty
  | separator semicolon _ ih => exact .separator semicolon ih
  | entity first _ ih =>
    cases first with
    | definition keyword signature body => exact .entity (.definition keyword signature (body.mono wide)) ih
    | declaration keyword signature => exact .entity (.declaration keyword signature) ih
    | expression body => exact .entity (.expression (body.mono wide)) ih

theorem lacks_opening_of_operator {op : Token} (operator : 0 < table.precedence op.lexeme) :
    Lacks '(' (op :: tokens) := by
  apply lacks_of_lexeme
  intro opening
  rw [opening] at operator
  exact OperatorTable.precedence_punctuation rfl operator

theorem Derives.lacks_opening (h : Derives table alone (.links found) depth tokens rest)
    (lacks : Lacks '(' rest) : Lacks '(' tokens := by
  cases h with
  | noLinks => exact lacks
  | link operator _ _ => exact lacks_opening_of_operator operator

/-- Only at its end can a phrase have a name before an opening parenthesis that is not a call. -/
theorem Derives.reads (h : Derives table alone phrase depth tokens rest) (lacks : Lacks '(' rest) :
    Reads table phrase depth tokens rest := by
  have punctuation {token : Token} {c : Char} {behind : List Token} (same : token.lexeme = .character c)
      (other : c ≠ '(') : Lacks '(' (token :: behind) :=
    lacks_of_lexeme (by simpa [same] using other)
  induction h with
  | number literal => exact .number literal
  | name word _ => exact .name word lacks
  | emptyCall word opening closing => exact .emptyCall word opening closing
  | call word opening _ closing ih => exact .call word opening (ih (punctuation closing (by decide))) closing
  | group opening _ closing ih => exact .group opening (ih (punctuation closing (by decide))) closing
  | noLinks => exact .noLinks
  | link operator _ more operand links =>
    exact .link operator (operand (more.lacks_opening lacks)) (links lacks)
  | expression _ more operand links =>
    exact .expression (operand (more.lacks_opening lacks)) (links lacks)
  | lastArgument _ ih => exact .lastArgument (ih lacks)
  | argument _ separator _ value more =>
    exact .argument (value (punctuation separator (by decide))) separator (more lacks)

/-- A phrase of the same kind, possibly with links behind it, goes on up to the rest. -/
def Phrase.Extends (table : OperatorTable) (tokens rest : List Token) : Phrase → Prop
  | primary _ => ∃ e found depth depth' middle,
      Reads table (.primary e) depth tokens middle ∧ Reads table (.links found) depth' middle rest
  | links _ => ∃ found depth, Reads table (.links found) depth tokens rest
  | expression _ => ∃ e depth, Reads table (.expression e) depth tokens rest
  | arguments _ => True

theorem Derives.operand_reads_or_extends {ahead : List Token}
    (operand : Derives table alone (.primary e) depth tokens middle)
    (links : Derives table alone (.links found) depth' middle ahead)
    (operandCases : middle = ahead →
      Reads table (.primary e) depth tokens middle ∨ (Phrase.primary e).Extends table tokens rest)
    (linksCases : Reads table (.links found) depth' middle ahead ∨
      (Phrase.links found).Extends table middle rest) :
    (Reads table (.primary e) depth tokens middle ∧ Reads table (.links found) depth' middle ahead) ∨
      (Phrase.primary e).Extends table tokens rest := by
  cases links with
  | noLinks =>
    rcases operandCases rfl with reads | extended
    · exact .inl ⟨reads, .noLinks⟩
    · exact .inr extended
  | link operator _ _ =>
    have reads := operand.reads (lacks_opening_of_operator operator)
    rcases linksCases with links | ⟨found, depth, links⟩
    · exact .inl ⟨reads, links⟩
    · exact .inr ⟨_, _, _, _, _, reads, links⟩

/-- Before a group with links behind it, a phrase either needs no name to stand alone or can take the
group as the argument of a call and go on with the links. -/
theorem Derives.reads_or_extends (h : Derives table alone phrase depth tokens (left :: behind))
    (opening : left.lexeme = .character '(')
    (inner : Reads table (.expression e) depth' behind (right :: middle))
    (closing : right.lexeme = .character ')') (more : Reads table (.links found) more' middle rest) :
    Reads table phrase depth tokens (left :: behind) ∨ phrase.Extends table tokens rest := by
  generalize front : left :: behind = ahead at h
  induction h with
  | number literal => exact .inl (.number literal)
  | name word _ =>
    subst front
    exact .inr ⟨_, _, _, _, _, .call word opening (.lastArgument inner) closing, more⟩
  | emptyCall word opening closing => exact .inl (.emptyCall word opening closing)
  | call word opening inner closing _ =>
    exact .inl (.call word opening (inner.reads (lacks_of_lexeme (by simp [closing]))) closing)
  | group opening inner closing _ =>
    exact .inl (.group opening (inner.reads (lacks_of_lexeme (by simp [closing]))) closing)
  | noLinks => exact .inl .noLinks
  | link operator operand links operandCases linksCases =>
    subst front
    rcases operand.operand_reads_or_extends links (fun same => operandCases same.symm) (linksCases rfl)
      with ⟨operand, links⟩ | ⟨e, found, depth, depth', middle, operand, links⟩
    · exact .inl (.link operator operand links)
    · exact .inr ⟨_, _, .link operator operand links⟩
  | expression operand links operandCases linksCases =>
    subst front
    rcases operand.operand_reads_or_extends links (fun same => operandCases same.symm) (linksCases rfl)
      with ⟨operand, links⟩ | ⟨e, found, depth, depth', middle, operand, links⟩
    · exact .inl (.expression operand links)
    · exact .inr ⟨_, _, .expression operand links⟩
  | lastArgument _ _ => exact .inr trivial
  | argument _ _ _ _ _ => exact .inr trivial

/-- An expression may end before a parenthesis that starts the next entity, and then there is one that
does not. -/
theorem Derives.exists_reads (h : Derives table alone (.expression e) depth tokens rest)
    (program : Program table (Lacks '(') rest items) :
    ∃ e' depth' rest' items', Reads table (.expression e') depth' tokens rest' ∧
      Program table (Lacks '(') rest' items' := by
  have direct (lacks : Lacks '(' rest) : ∃ e' depth' rest' items',
      Reads table (.expression e') depth' tokens rest' ∧ Program table (Lacks '(') rest' items' :=
    ⟨e, depth, rest, items, h.reads lacks, program⟩
  cases program with
  | empty => exact direct (by simp [Lacks])
  | separator semicolon _ => exact direct (lacks_of_lexeme (by simp [semicolon]))
  | entity first more =>
    cases first with
    | definition keyword _ _ => exact direct (lacks_of_lexeme (by simp [keyword]))
    | declaration keyword _ => exact direct (lacks_of_lexeme (by simp [keyword]))
    | expression body =>
      cases body with
      | expression operand links =>
        cases operand with
        | number literal => exact direct (lacks_of_lexeme (by simp [literal]))
        | name word _ => exact direct (lacks_of_lexeme (by simp [word]))
        | emptyCall word _ _ => exact direct (lacks_of_lexeme (by simp [word]))
        | call word _ _ _ => exact direct (lacks_of_lexeme (by simp [word]))
        | group opening inner closing =>
          rcases h.reads_or_extends opening inner closing links with reads | ⟨e', depth', reads⟩
          · have second := DerivesEntity.expression (.expression (.group opening inner closing) links)
            exact ⟨_, _, _, _, reads, .entity second more⟩
          · exact ⟨e', depth', _, _, reads, more⟩

/-- Taking every name before a parenthesis for a call loses no program. -/
theorem Program.exists_reads (h : Program table alone tokens items) :
    ∃ items', Program table (Lacks '(') tokens items' := by
  induction h with
  | empty => exact ⟨[], .empty⟩
  | separator semicolon _ ih =>
    obtain ⟨items', program⟩ := ih
    exact ⟨none :: items', .separator semicolon program⟩
  | entity first _ ih =>
    obtain ⟨items', program⟩ := ih
    cases first with
    | definition keyword signature body =>
      obtain ⟨_, _, _, _, reads, program⟩ := body.exists_reads program
      exact ⟨_, .entity (.definition keyword signature reads) program⟩
    | declaration keyword signature =>
      exact ⟨_, .entity (.declaration keyword signature) program⟩
    | expression body =>
      obtain ⟨_, _, _, _, reads, program⟩ := body.exists_reads program
      exact ⟨_, .entity (.expression reads) program⟩

theorem Program.head (h : Program table alone tokens items) :
    ∀ token ∈ tokens.head?, ¬ Joins table 0 token := by
  cases h with
  | empty => simp
  | separator semicolon _ => exact not_joins_of_lexeme (semicolon ▸ OperatorTable.precedence_punctuation rfl)
  | entity first _ =>
    obtain ⟨token, behind, rfl, starts⟩ := first.head
    exact not_joins_of_lexeme starts.no_operator.1

end Kaleidoscope.Grammar
