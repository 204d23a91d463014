import Kaleidoscope.Proofs.Grammar.Derivation

/-! What the readers of arguments and primaries yield, in terms of the reader they are given for what stands
in parentheses. -/
namespace Kaleidoscope.Grammar

inductive Listed (expression : Reader Expr) : List Token → List Expr → List Token → Prop where
  | last (reads : (expression tokens).Yields value (right :: rest))
      (closing : right.lexeme = .character ')') : Listed expression tokens [value] rest
  | more (reads : (expression tokens).Yields value (comma :: behind))
      (separator : comma.lexeme = .character ',') (listed : Listed expression behind args rest) :
      Listed expression tokens (value :: args) rest

/-- The forms of a primary, with a reader for what stands in its parentheses. -/
inductive Form (expression : Reader Expr) : List Token → Expr → List Token → Prop where
  | number (literal : token.lexeme = .number value) :
      Form expression (token :: rest) (.number value (some token.location)) rest
  | name (word : token.lexeme = .identifier name) (ends : Lacks '(' rest) :
      Form expression (token :: rest) (.var name (some token.location)) rest
  | emptyCall (word : token.lexeme = .identifier name) (opening : left.lexeme = .character '(')
      (closing : right.lexeme = .character ')') :
      Form expression (token :: left :: right :: rest) (.call name [] (some token.location)) rest
  | call (word : token.lexeme = .identifier name) (opening : left.lexeme = .character '(')
      (begun : Lacks ')' tokens) (listed : Listed expression tokens args rest) :
      Form expression (token :: left :: tokens) (.call name args (some token.location)) rest
  | group (opening : left.lexeme = .character '(')
      (reads : (expression tokens).Yields e (right :: rest)) (closing : right.lexeme = .character ')') :
      Form expression (left :: tokens) e rest

variable {expression : Reader Expr} {tokens rest : List Token}

theorem Listed.tokens_ne_nil {args : List Expr} (listed : Listed expression tokens args rest) :
    tokens ≠ [] := by
  rintro rfl
  cases listed with
  | last reads _ => exact absurd reads.shorter (by simp)
  | more reads _ _ => exact absurd reads.shorter (by simp)

theorem yields_arguments_iff {found result : List Expr} :
    (arguments expression found tokens).Yields result rest ↔
      ∃ args, result = found.reverse ++ args ∧ Listed expression tokens args rest := by
  fun_induction arguments expression found tokens with
  | case1 found =>
    simp only [Reading.yields_stuckAt, false_iff]
    intro h
    obtain ⟨args, -, listed⟩ := h
    exact listed.tokens_ne_nil rfl
  | case2 found first others expected stuckAt within failed =>
    simp only [Reading.yields_stuck, false_iff]
    intro h
    obtain ⟨args, -, listed⟩ := h
    cases listed with
    | last reads _ => simp [failed] at reads
    | more reads _ _ => simp [failed] at reads
  | case3 found first others value shorter _ read =>
    simp only [Reading.yields_stuck, false_iff]
    intro h
    obtain ⟨args, -, listed⟩ := h
    cases listed with
    | last reads _ => simp [read] at reads
    | more reads _ _ => simp [read] at reads
  | case4 found first others value next behind shorter closing _ read =>
    simp only [Reading.yields_done]
    constructor
    · intro h
      obtain ⟨rfl, rfl⟩ := h
      exact ⟨[value], by simp, .last ⟨shorter, read⟩ (Token.isChar_iff.mp closing)⟩
    · intro h
      obtain ⟨args, rfl, listed⟩ := h
      cases listed with
      | last reads _ => simp_all
      | more reads separator _ => simp_all [Token.isChar_iff]
  | case5 found first others value next behind shorter other separator _ read ih =>
    simp only [Reading.yields_weaken, ih]
    constructor
    · intro h
      obtain ⟨args, rfl, listed⟩ := h
      exact ⟨value :: args, by simp, .more ⟨shorter, read⟩ (Token.isChar_iff.mp separator) listed⟩
    · intro h
      obtain ⟨args, rfl, listed⟩ := h
      cases listed with
      | last reads closing => simp_all [Token.isChar_iff]
      | more reads _ listed =>
        obtain ⟨rfl, same⟩ := reads.unique ⟨shorter, read⟩
        cases same
        exact ⟨_, by simp, listed⟩
  | case6 found first others value next behind shorter other neither _ read =>
    simp only [Reading.yields_stuck, false_iff]
    intro h
    obtain ⟨args, -, listed⟩ := h
    cases listed with
    | last reads closing => simp_all [Token.isChar_iff]
    | more reads separator _ => simp_all [Token.isChar_iff]

theorem yields_group_iff {e : Expr} :
    (group expression tokens).Yields e rest ↔
      ∃ right, (expression tokens).Yields e (right :: rest) ∧ right.lexeme = .character ')' := by
  simp only [group, Reading.yields_andThen, Reading.yields_map, yields_expectChar, Token.isChar_iff]
  constructor
  · intro h
    obtain ⟨value, middle, reads, _, ⟨right, rfl, closing⟩, rfl⟩ := h
    exact ⟨right, reads, closing⟩
  · intro h
    obtain ⟨right, reads, closing⟩ := h
    exact ⟨e, _, reads, (), ⟨right, rfl, closing⟩, rfl⟩

theorem yields_callArguments_iff {args : List Expr} :
    (callArguments expression tokens).Yields args rest ↔
      (∃ right, tokens = right :: rest ∧ right.lexeme = .character ')' ∧ args = []) ∨
        Lacks ')' tokens ∧ Listed expression tokens args rest := by
  cases tokens with
  | nil =>
    simp only [callArguments, yields_arguments_iff]
    simp [Lacks]
  | cons next behind =>
    by_cases closing : next.isChar ')' = true
    · simp only [callArguments, closing, if_true, Reading.yields_done]
      have closing := Token.isChar_iff.mp closing
      constructor
      · intro h
        obtain ⟨rfl, rfl⟩ := h
        exact .inl ⟨next, rfl, closing, rfl⟩
      · intro h
        rcases h with ⟨right, same, -, rfl⟩ | ⟨lacks, -⟩
        · exact ⟨rfl, (List.cons.inj same).2⟩
        · exact absurd closing (lacks next rfl)
    · have lacks : Lacks ')' (next :: behind) :=
        lacks_of_lexeme fun same => closing (Token.isChar_iff.mpr same)
      simp only [callArguments, closing, Bool.false_eq_true, if_false, yields_arguments_iff]
      constructor
      · intro h
        obtain ⟨_, rfl, listed⟩ := h
        exact .inr ⟨lacks, listed⟩
      · intro h
        rcases h with ⟨right, same, closing', -⟩ | ⟨-, listed⟩
        · exact absurd closing' (lacks right (by simp [same]))
        · exact ⟨args, rfl, listed⟩

theorem yields_afterName_iff {name : String} {at? : Option Location} {e : Expr} :
    (afterName expression name at? tokens).Yields e rest ↔
      (Lacks '(' tokens ∧ e = .var name at? ∧ tokens = rest) ∨
        ∃ left behind args, tokens = left :: behind ∧ left.lexeme = .character '(' ∧
          e = .call name args at? ∧ (callArguments expression behind).Yields args rest := by
  cases tokens with
  | nil => simp [afterName, Lacks, eq_comm]
  | cons next behind =>
    by_cases opening : next.isChar '(' = true
    · simp only [afterName, opening, if_true, Reading.yields_weaken, Reading.yields_map]
      have opening := Token.isChar_iff.mp opening
      constructor
      · intro h
        obtain ⟨args, reads, rfl⟩ := h
        exact .inr ⟨next, behind, args, rfl, opening, rfl, reads⟩
      · intro h
        rcases h with ⟨lacks, -, -⟩ | ⟨_, _, args, same, -, rfl, reads⟩
        · exact absurd opening (lacks next rfl)
        · cases same
          exact ⟨args, reads, rfl⟩
    · simp only [afterName, opening, Bool.false_eq_true, if_false, Reading.yields_done]
      have other : next.lexeme ≠ .character '(' := fun same => opening (Token.isChar_iff.mpr same)
      constructor
      · intro h
        obtain ⟨rfl, rfl⟩ := h
        exact .inl ⟨lacks_of_lexeme other, rfl, rfl⟩
      · intro h
        rcases h with ⟨-, rfl, rfl⟩ | ⟨_, _, _, same, opening', -⟩
        · exact ⟨rfl, rfl⟩
        · cases same
          exact absurd opening' other

theorem primaryForm_of_not_starts {token : Token} (h : ¬ Starts token) :
    primaryForm expression (token :: tokens) = .stuckAt .expression (token :: tokens) := by
  cases lexeme : token.lexeme with
  | identifier name => simp [Starts, lexeme] at h
  | number value => simp [Starts, lexeme] at h
  | character c =>
    have other : c ≠ '(' := by
      rintro rfl
      simp [Starts, lexeme] at h
    simp only [primaryForm, lexeme]
    split <;> simp_all
  | _ => simp [primaryForm, lexeme]

theorem yields_primaryForm_iff {e : Expr} :
    (primaryForm expression tokens).Yields e rest ↔ Form expression tokens e rest := by
  constructor
  · intro yields
    cases tokens with
    | nil => simp [primaryForm] at yields
    | cons token behind =>
      have starts : Starts token := Classical.byContradiction fun none => by
        simp [primaryForm_of_not_starts none] at yields
      cases lexeme : token.lexeme with
      | identifier name =>
        simp only [primaryForm, lexeme, yields_afterName_iff, yields_callArguments_iff] at yields
        rcases yields with ⟨lacks, rfl, rfl⟩ | ⟨left, inside, args, rfl, opening, rfl, reads⟩
        · exact .name lexeme lacks
        · rcases reads with ⟨right, rfl, closing, rfl⟩ | ⟨lacks, listed⟩
          · exact .emptyCall lexeme opening closing
          · exact .call lexeme opening lacks listed
      | number value =>
        simp only [primaryForm, lexeme, Reading.yields_done] at yields
        obtain ⟨rfl, rfl⟩ := yields
        exact .number lexeme
      | character c =>
        obtain rfl := starts.eq_opening lexeme
        simp only [primaryForm, lexeme, Reading.yields_weaken, yields_group_iff] at yields
        obtain ⟨right, reads, closing⟩ := yields
        exact .group lexeme reads closing
      | _ => simp [Starts, lexeme] at starts
  · intro form
    cases form with
    | number literal => simp [primaryForm, literal]
    | name word ends => simp [primaryForm, word, yields_afterName_iff, ends]
    | emptyCall word opening closing =>
      simp only [primaryForm, word, yields_afterName_iff, yields_callArguments_iff]
      exact .inr ⟨_, _, _, rfl, opening, rfl, .inl ⟨_, rfl, closing, rfl⟩⟩
    | call word opening begun listed =>
      simp only [primaryForm, word, yields_afterName_iff, yields_callArguments_iff]
      exact .inr ⟨_, _, _, rfl, opening, rfl, .inr ⟨begun, listed⟩⟩
    | group opening reads closing =>
      simp only [primaryForm, opening, Reading.yields_weaken, yields_group_iff]
      exact ⟨_, reads, closing⟩

end Kaleidoscope.Grammar
