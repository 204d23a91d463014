import Kaleidoscope.Proofs.Grammar.Failure

/-! The rules of entities and of the prototypes in them, and those of where reading them gets stuck. The
readers do as the rules say. -/
namespace Kaleidoscope.Grammar

inductive Signature : Prototype → List Token → List Token → Prop where
  | intro (word : token.lexeme = .identifier name) (opening : left.lexeme = .character '(')
      (named : ∀ param ∈ params, isIdentifier param = true) (closing : right.lexeme = .character ')') :
      Signature ⟨name, params.map (·.lexeme.text), some token.location⟩
        (token :: left :: (params ++ right :: rest)) rest

/-- The tokens before `rest` are an entity whose body is of this depth. -/
inductive DerivesEntity (table : OperatorTable) (alone : List Token → Prop) :
    Entity → Nat → List Token → List Token → Prop where
  | definition (keyword : token.lexeme = .defKeyword) (signature : Signature proto tokens middle)
      (body : Derives table alone (.expression e) depth middle rest) :
      DerivesEntity table alone (.function ⟨proto, e, some token.location⟩) depth (token :: tokens) rest
  | declaration (keyword : token.lexeme = .externKeyword) (signature : Signature proto tokens rest) :
      DerivesEntity table alone (.declaration proto) 0 (token :: tokens) rest
  | expression (body : Derives table alone (.expression e) depth tokens rest) :
      DerivesEntity table alone (.function (.anonymous e)) depth tokens rest

abbrev ReadsEntity (table : OperatorTable) : Entity → Nat → List Token → List Token → Prop :=
  DerivesEntity table (Lacks '(')

def StartsEntity (token : Token) : Prop :=
  token.lexeme = .defKeyword ∨ token.lexeme = .externKeyword ∨ Starts token

/-- The tokens start with no keyword, so that they can only be a bare expression. -/
def IsBare (tokens : List Token) : Prop :=
  ∀ token ∈ tokens.head?, token.lexeme ≠ .defKeyword ∧ token.lexeme ≠ .externKeyword

inductive SignatureSticks : List Token → Expectation → List Token → Prop where
  | name (none : ∀ token ∈ tokens.head?, isIdentifier token = false) :
      SignatureSticks tokens .functionName tokens
  | opening (word : token.lexeme = .identifier name) (unopened : Lacks '(' rest) :
      SignatureSticks (token :: rest) .openingOfParameters rest
  | closing (word : token.lexeme = .identifier name) (opening : left.lexeme = .character '(')
      (named : ∀ param ∈ params, isIdentifier param = true)
      (last : ∀ token ∈ rest.head?, isIdentifier token = false) (unclosed : Lacks ')' rest) :
      SignatureSticks (token :: left :: (params ++ rest)) .closingOfParameters rest

/-- An entity is not read to its end. -/
inductive SticksEntity (table : OperatorTable) :
    Nat → List Token → Expectation → List Token → Prop where
  | inSignature (keyword : token.lexeme = .defKeyword ∨ token.lexeme = .externKeyword)
      (signature : SignatureSticks tokens expected stuck) :
      SticksEntity table levels (token :: tokens) expected stuck
  | inBody (keyword : token.lexeme = .defKeyword) (signature : Signature proto tokens middle)
      (body : Sticks table .expression levels middle expected stuck) :
      SticksEntity table levels (token :: tokens) expected stuck
  | inExpression (bare : IsBare tokens) (body : Sticks table .expression levels tokens expected stuck) :
      SticksEntity table levels tokens expected stuck

variable {table : OperatorTable} {alone : List Token → Prop} {entity : Entity} {depth levels : Nat}
  {tokens rest : List Token}

theorem DerivesEntity.head (h : DerivesEntity table alone entity depth tokens rest) :
    ∃ token behind, tokens = token :: behind ∧ StartsEntity token := by
  cases h with
  | definition keyword _ _ => exact ⟨_, _, rfl, .inl keyword⟩
  | declaration keyword _ => exact ⟨_, _, rfl, .inr (.inl keyword)⟩
  | expression body =>
    obtain ⟨token, behind, rfl, starts⟩ := body.head (by simp)
    exact ⟨token, behind, rfl, .inr (.inr starts)⟩

/-- No token that starts an entity is an operator or a semicolon. -/
theorem StartsEntity.no_operator {token : Token} (starts : StartsEntity token) :
    ¬ 0 < table.precedence token.lexeme ∧ token.isChar ';' = false := by
  have other (bare : token.lexeme.char? = none) :
      ¬ 0 < table.precedence token.lexeme ∧ token.isChar ';' = false := by
    refine ⟨by simp [table.precedence_of_char?_eq_none bare, OperatorTable.noPrecedence], ?_⟩
    rw [← Bool.not_eq_true, Token.isChar_iff]
    intro semicolon
    rw [semicolon] at bare
    cases bare
  rcases starts with keyword | keyword | starts
  · exact other (keyword ▸ rfl)
  · exact other (keyword ▸ rfl)
  · cases lexeme : token.lexeme with
    | character c =>
      obtain rfl := starts.eq_opening lexeme
      exact ⟨OperatorTable.precedence_punctuation rfl, by simp [Token.isChar, lexeme]⟩
    | _ => exact lexeme ▸ other (lexeme ▸ rfl)

theorem Signature.shorter {proto : Prototype} (signature : Signature proto tokens rest) :
    rest.length < tokens.length := by
  cases signature
  simp
  omega

theorem DerivesEntity.depth_le (h : DerivesEntity table alone entity depth tokens rest) :
    depth + rest.length ≤ tokens.length := by
  cases h with
  | definition _ signature body =>
    have shorter := signature.shorter
    have bound := body.depth_le
    simp only [List.length_cons]
    omega
  | declaration _ signature =>
    have shorter := signature.shorter
    simp only [List.length_cons]
    omega
  | expression body => exact body.depth_le

theorem yields_parameters_iff {params : List String} :
    (parameters tokens).Yields params rest ↔
      ∃ named right, (∀ param ∈ named, isIdentifier param = true) ∧ right.lexeme = .character ')' ∧
        tokens = named ++ right :: rest ∧ params = named.map (·.lexeme.text) := by
  simp only [parameters, Reading.yields_weaken, Reading.yields_map, yields_expectChar, Token.isChar_iff]
  constructor
  · intro h
    obtain ⟨_, ⟨right, front, closing⟩, rfl⟩ := h
    refine ⟨tokens.takeWhile isIdentifier, right, fun param member => ?_, closing, ?_, rfl⟩
    · exact List.all_eq_true.mp List.all_takeWhile param member
    · rw [← front, List.takeWhile_append_dropWhile]
  · intro h
    obtain ⟨named, right, all, closing, rfl, rfl⟩ := h
    have other : isIdentifier right = false := by simp [isIdentifier, closing]
    refine ⟨(), ⟨right, ?_, closing⟩, ?_⟩
    · rw [List.dropWhile_append_of_pos all, List.dropWhile_cons_of_neg (by simp [other])]
    · rw [List.takeWhile_append_of_pos all, List.takeWhile_cons_of_neg (by simp [other]),
        List.append_nil]

theorem yields_prototype_iff {proto : Prototype} :
    (prototype tokens).Yields proto rest ↔ Signature proto tokens rest := by
  constructor
  · intro yields
    cases tokens with
    | nil => simp [prototype] at yields
    | cons token behind =>
      cases lexeme : token.lexeme with
      | identifier name =>
        simp only [prototype, lexeme, Reading.yields_weaken, Reading.yields_map, Reading.yields_andThen,
          yields_expectChar, Token.isChar_iff, yields_parameters_iff] at yields
        obtain ⟨_, ⟨_, _, ⟨left, rfl, opening⟩, named, right, all, closing, rfl, rfl⟩, rfl⟩ := yields
        exact .intro lexeme opening all closing
      | _ => simp [prototype, lexeme] at yields
  · intro h
    obtain ⟨word, opening, named, closing⟩ := h
    simp only [prototype, word, Reading.yields_weaken, Reading.yields_map, Reading.yields_andThen,
      yields_expectChar, Token.isChar_iff, yields_parameters_iff]
    exact ⟨_, ⟨(), _, ⟨_, rfl, opening⟩, _, _, named, closing, rfl, rfl⟩, rfl⟩

theorem fails_parameters_iff {stuck : List Token} {expected : Expectation} :
    (parameters tokens).Fails expected stuck ↔
      ∃ named, (∀ param ∈ named, isIdentifier param = true) ∧
        (∀ token ∈ stuck.head?, isIdentifier token = false) ∧ Lacks ')' stuck ∧
          tokens = named ++ stuck ∧ .closingOfParameters = expected := by
  simp only [parameters, Reading.fails_weaken, Reading.fails_map, fails_expectChar]
  constructor
  · rintro ⟨unclosed, rfl, rfl⟩
    refine ⟨tokens.takeWhile isIdentifier, fun param member => ?_, fun token first => ?_, unclosed, ?_, rfl⟩
    · exact List.all_eq_true.mp List.all_takeWhile param member
    · have none := List.head?_dropWhile_not isIdentifier tokens
      rw [Option.mem_def.mp first] at none
      simpa using none
    · exact List.takeWhile_append_dropWhile.symm
  · rintro ⟨named, all, none, unclosed, rfl, rfl⟩
    have rest : (named ++ stuck).dropWhile isIdentifier = stuck := by
      rw [List.dropWhile_append_of_pos all]
      cases stuck with
      | nil => rfl
      | cons token behind => exact List.dropWhile_cons_of_neg (by simp [none token rfl])
    exact ⟨rest.symm ▸ unclosed, rfl, rest⟩

theorem fails_prototype_iff {stuck : List Token} {expected : Expectation} :
    (prototype tokens).Fails expected stuck ↔ SignatureSticks tokens expected stuck := by
  constructor
  · intro fails
    cases tokens with
    | nil =>
      simp only [prototype, Reading.fails_stuckAt] at fails
      obtain ⟨rfl, rfl⟩ := fails
      exact .name (by simp)
    | cons token behind =>
      cases lexeme : token.lexeme with
      | identifier name =>
        simp only [prototype, lexeme, Reading.fails_weaken, Reading.fails_map, Reading.fails_andThen,
          fails_expectChar, yields_expectChar, Token.isChar_iff, fails_parameters_iff] at fails
        rcases fails with ⟨unopened, rfl, rfl⟩ | ⟨-, _, ⟨left, rfl, opening⟩, named, all, last, unclosed, rfl, rfl⟩
        · exact .opening lexeme unopened
        · exact .closing lexeme opening all last unclosed
      | _ =>
        simp only [prototype, lexeme, Reading.fails_stuckAt] at fails
        obtain ⟨rfl, rfl⟩ := fails
        exact .name (by simp [isIdentifier, lexeme])
  · intro h
    cases h with
    | name none =>
      cases tokens with
      | nil => simp [prototype]
      | cons token behind =>
        have other := none token rfl
        cases lexeme : token.lexeme <;> simp_all [prototype, isIdentifier]
    | opening word unopened =>
      simp only [prototype, word, Reading.fails_weaken, Reading.fails_map, Reading.fails_andThen,
        fails_expectChar]
      exact .inl ⟨unopened, trivial, trivial⟩
    | closing word opening named last unclosed =>
      simp only [prototype, word, Reading.fails_weaken, Reading.fails_map, Reading.fails_andThen,
        yields_expectChar, Token.isChar_iff, fails_parameters_iff]
      exact .inr ⟨(), _, ⟨_, rfl, opening⟩, _, named, last, unclosed, rfl, trivial⟩

theorem isBare_of_starts {token : Token} (starts : Starts token) : IsBare (token :: tokens) := by
  rintro _ ⟨⟩
  constructor <;> rintro keyword <;> simp [Starts, keyword] at starts

theorem Derives.isBare {e : Expr} (h : Derives table alone (.expression e) depth tokens rest) :
    IsBare tokens := by
  obtain ⟨token, behind, rfl, starts⟩ := h.head (by simp)
  exact isBare_of_starts starts

theorem entity_of_isBare (bare : IsBare tokens) :
    Grammar.entity table levels tokens =
      (Grammar.expression table levels tokens).map fun e => .function (.anonymous e) := by
  cases tokens with
  | nil => rfl
  | cons token behind =>
    have other := bare token rfl
    cases lexeme : token.lexeme <;> simp_all [Grammar.entity]

theorem keyword_or_isBare (tokens : List Token) :
    (∃ token behind, tokens = token :: behind ∧ token.lexeme = .defKeyword) ∨
      (∃ token behind, tokens = token :: behind ∧ token.lexeme = .externKeyword) ∨ IsBare tokens := by
  cases tokens with
  | nil => exact .inr (.inr (by simp [IsBare]))
  | cons token behind =>
    by_cases definition : token.lexeme = .defKeyword
    · exact .inl ⟨token, behind, rfl, definition⟩
    by_cases declaration : token.lexeme = .externKeyword
    · exact .inr (.inl ⟨token, behind, rfl, declaration⟩)
    · exact .inr (.inr (by simp [IsBare, definition, declaration]))

/-- Nothing behind an entity can still belong to it; a declaration ends with its parenthesis. -/
def EndsEntity (table : OperatorTable) (rest : List Token) : Entity → Prop
  | .declaration _ => True
  | .function _ => ∀ token ∈ rest.head?, ¬ Joins table 0 token

/-- The entity is read up to the rest, and so many levels are enough for it. -/
def TakesEntity (table : OperatorTable) (levels : Nat) (entity : Entity) (tokens rest : List Token) : Prop :=
  EndsEntity table rest entity ∧ ∃ depth ≤ levels, ReadsEntity table entity depth tokens rest

/-- What is read as an entity is one, within the levels. -/
theorem yields_entity_iff :
    (Grammar.entity table levels tokens).Yields entity rest ↔
      TakesEntity table levels entity tokens rest := by
  constructor
  · intro yields
    rcases keyword_or_isBare tokens with ⟨token, behind, rfl, keyword⟩ | ⟨token, behind, rfl, keyword⟩ | bare
    · simp only [Grammar.entity, keyword, definition, Reading.yields_weaken, Reading.yields_map,
        Reading.yields_andThen, yields_prototype_iff, yields_expression_iff] at yields
      obtain ⟨_, ⟨proto, middle, signature, e, ⟨ends, depth, within, body⟩, rfl⟩, rfl⟩ := yields
      exact ⟨ends, depth, within, .definition keyword signature body⟩
    · simp only [Grammar.entity, keyword, Reading.yields_weaken, Reading.yields_map,
        yields_prototype_iff] at yields
      obtain ⟨proto, signature, rfl⟩ := yields
      exact ⟨trivial, 0, Nat.zero_le _, .declaration keyword signature⟩
    · simp only [entity_of_isBare bare, Reading.yields_map, yields_expression_iff] at yields
      obtain ⟨e, ⟨ends, depth, within, body⟩, rfl⟩ := yields
      exact ⟨ends, depth, within, .expression body⟩
  · intro takes
    obtain ⟨ends, depth, within, reads⟩ := takes
    cases reads with
    | definition keyword signature body =>
      simp only [Grammar.entity, keyword, Grammar.definition, Reading.yields_weaken, Reading.yields_map,
        Reading.yields_andThen, yields_prototype_iff, yields_expression_iff]
      exact ⟨_, ⟨_, _, signature, _, ⟨ends, depth, within, body⟩, rfl⟩, rfl⟩
    | declaration keyword signature =>
      simp only [Grammar.entity, keyword, Reading.yields_weaken, Reading.yields_map, yields_prototype_iff]
      exact ⟨_, signature, rfl⟩
    | expression body =>
      simp only [entity_of_isBare body.isBare, Reading.yields_map, yields_expression_iff]
      exact ⟨_, ⟨ends, depth, within, body⟩, rfl⟩

theorem fails_entity_iff {stuck : List Token} {expected : Expectation} :
    (Grammar.entity table levels tokens).Fails expected stuck ↔
      SticksEntity table levels tokens expected stuck := by
  constructor
  · intro fails
    rcases keyword_or_isBare tokens with ⟨token, behind, rfl, keyword⟩ | ⟨token, behind, rfl, keyword⟩ | bare
    · simp only [Grammar.entity, keyword, definition, Reading.fails_weaken, Reading.fails_map,
        Reading.fails_andThen, yields_prototype_iff, fails_prototype_iff, fails_expression_iff] at fails
      rcases fails with signature | ⟨proto, middle, signature, body⟩
      · exact .inSignature (.inl keyword) signature
      · exact .inBody keyword signature body
    · simp only [Grammar.entity, keyword, Reading.fails_weaken, Reading.fails_map,
        fails_prototype_iff] at fails
      exact .inSignature (.inr keyword) fails
    · simp only [entity_of_isBare bare, Reading.fails_map, fails_expression_iff] at fails
      exact .inExpression bare fails
  · intro sticks
    cases sticks with
    | inSignature keyword signature =>
      rcases keyword with keyword | keyword
      · simp only [Grammar.entity, keyword, definition, Reading.fails_weaken, Reading.fails_map,
          Reading.fails_andThen, fails_prototype_iff]
        exact .inl signature
      · simp only [Grammar.entity, keyword, Reading.fails_weaken, Reading.fails_map, fails_prototype_iff]
        exact signature
    | inBody keyword signature body =>
      simp only [Grammar.entity, keyword, definition, Reading.fails_weaken, Reading.fails_map,
        Reading.fails_andThen, yields_prototype_iff, fails_expression_iff]
      exact .inr ⟨_, _, signature, body⟩
    | inExpression bare body =>
      simp only [entity_of_isBare bare, Reading.fails_map, fails_expression_iff]
      exact body

theorem DerivesEntity.yields (h : ReadsEntity table entity depth tokens rest) (within : depth ≤ levels)
    (ends : ∀ token ∈ rest.head?, ¬ Joins table 0 token) :
    (Grammar.entity table levels tokens).Yields entity rest := by
  refine yields_entity_iff.mpr ⟨?_, depth, within, h⟩
  cases entity with
  | function _ => exact ends
  | declaration _ => exact trivial

theorem DerivesEntity.sticks (h : ReadsEntity table entity depth tokens rest) (beyond : levels < depth) :
    ∃ stuck, SticksEntity table levels tokens .shallowerNesting stuck ∧ rest.length ≤ stuck.length := by
  cases h with
  | definition keyword signature body =>
    obtain ⟨stuck, sticks, most⟩ := body.sticks beyond
    exact ⟨stuck, .inBody keyword signature sticks, most⟩
  | declaration _ _ => exact absurd beyond (Nat.not_lt_zero _)
  | expression body =>
    obtain ⟨stuck, sticks, most⟩ := body.sticks beyond
    exact ⟨stuck, .inExpression body.isBare sticks, most⟩

theorem SticksEntity.deeper {levels' : Nat} {stuck : List Token} {expected : Expectation}
    (h : SticksEntity table levels tokens expected stuck) (other : expected ≠ .shallowerNesting)
    (more : levels ≤ levels') : SticksEntity table levels' tokens expected stuck := by
  cases h with
  | inSignature keyword signature => exact .inSignature keyword signature
  | inBody keyword signature body => exact .inBody keyword signature (body.deeper other more)
  | inExpression bare body => exact .inExpression bare (body.deeper other more)

end Kaleidoscope.Grammar
