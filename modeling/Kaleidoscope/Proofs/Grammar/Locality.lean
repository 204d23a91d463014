import Kaleidoscope.Proofs.Grammar.Entity

/-! What reading a phrase depends on: the tokens that are read and the kind of the token behind them. None of
those that are read is a semicolon. -/
namespace Kaleidoscope.Grammar

def FreeOf (c : Char) (tokens : List Token) : Prop :=
  ∀ token ∈ tokens, token.lexeme ≠ .character c

def SameHead (tokens rest : List Token) : Prop :=
  rest.head?.map (·.lexeme) = tokens.head?.map (·.lexeme)

variable {table : OperatorTable} {phrase : Phrase} {part : Part} {entity : Entity} {depth levels : Nat}
  {tokens rest stuck : List Token} {expected : Expectation} {c : Char}

@[simp] theorem freeOf_nil : FreeOf c [] := by
  simp [FreeOf]

@[simp] theorem freeOf_cons_iff {token : Token} :
    FreeOf c (token :: tokens) ↔ token.lexeme ≠ .character c ∧ FreeOf c tokens := by
  simp [FreeOf]

@[simp] theorem freeOf_append_iff : FreeOf c (tokens ++ rest) ↔ FreeOf c tokens ∧ FreeOf c rest := by
  simp [FreeOf, or_imp, forall_and]

theorem freeOf_identifiers {params : List Token} (named : ∀ param ∈ params, isIdentifier param = true) :
    FreeOf c params := by
  intro param member same
  have := named param member
  simp [isIdentifier, same] at this

theorem Joins.ne_semicolon {op : Token} (joins : Joins table 0 op) : op.lexeme ≠ .character ';' := by
  intro same
  have := joins.1
  rw [same] at this
  exact OperatorTable.precedence_punctuation rfl this

namespace SameHead

theorem append (same : SameHead tokens rest) (front : List Token) :
    SameHead (front ++ tokens) (front ++ rest) := by
  cases front with
  | nil => exact same
  | cons token front => rfl

/-- What holds of tokens by their lexeme holds of the heads of both. -/
theorem transfer {holds : Token → Prop} (same : SameHead tokens rest)
    (alike : ∀ {token other : Token}, other.lexeme = token.lexeme → holds other → holds token)
    (h : ∀ token ∈ tokens.head?, holds token) : ∀ token ∈ rest.head?, holds token := by
  intro token first
  rw [SameHead, Option.mem_def.mp first] at same
  obtain ⟨other, head, lexeme⟩ := Option.map_eq_some_iff.mp same.symm
  exact alike lexeme (h other head)

theorem lacks (same : SameHead tokens rest) (h : Lacks c tokens) : Lacks c rest :=
  same.transfer (fun alike other => alike ▸ other) h

theorem not_joins (same : SameHead tokens rest) (h : ∀ token ∈ tokens.head?, ¬ Joins table 0 token) :
    ∀ token ∈ rest.head?, ¬ Joins table 0 token :=
  same.transfer (fun alike other => by simpa only [Joins, alike] using other) h

theorem not_starts (same : SameHead tokens rest) (h : ∀ token ∈ tokens.head?, ¬ Starts token) :
    ∀ token ∈ rest.head?, ¬ Starts token :=
  same.transfer (fun alike other => by simpa only [Starts, alike] using other) h

theorem not_identifier (same : SameHead tokens rest)
    (h : ∀ token ∈ tokens.head?, isIdentifier token = false) :
    ∀ token ∈ rest.head?, isIdentifier token = false :=
  same.transfer (fun alike other => by simpa only [isIdentifier, alike] using other) h

theorem isBare (same : SameHead tokens rest) (h : IsBare tokens) : IsBare rest :=
  same.transfer (fun alike other => by simpa only [alike] using other) h

theorem ne_nil (same : SameHead tokens rest) (some : tokens ≠ []) : rest ≠ [] := by
  rintro rfl
  cases tokens with
  | nil => exact some rfl
  | cons token behind => cases same

end SameHead

/-- What stands behind a phrase does not change it, as long as it opens no call of the name at its end. -/
theorem Derives.split (h : Reads table phrase depth tokens rest) :
    ∃ used, tokens = used ++ rest ∧ FreeOf ';' used ∧
      ∀ rest', (Lacks '(' rest → Lacks '(' rest') → Reads table phrase depth (used ++ rest') rest' := by
  have append {front tokens rest : List Token} (h : Lacks '(' tokens → Lacks '(' rest) :
      Lacks '(' (front ++ tokens) → Lacks '(' (front ++ rest) := by
    cases front with
    | nil => exact h
    | cons token front => exact fun lacks => lacks
  induction h with
  | number literal =>
    exact ⟨[_], rfl, by simp [literal], fun rest' _ => .number literal⟩
  | name word ends =>
    exact ⟨[_], rfl, by simp [word], fun rest' lacks => .name word (lacks ends)⟩
  | emptyCall word opening closing =>
    exact ⟨[_, _, _], rfl, by simp [word, opening, closing], fun rest' _ => .emptyCall word opening closing⟩
  | @call _ _ _ right rest _ token left word opening _ closing ih =>
    obtain ⟨used, rfl, free, reads⟩ := ih
    refine ⟨token :: left :: (used ++ [right]), by simp, by simp [word, opening, closing, free], ?_⟩
    intro rest' _
    have inner := reads (right :: rest') id
    simpa using Derives.call word opening inner closing
  | @group _ _ _ right rest left opening _ closing ih =>
    obtain ⟨used, rfl, free, reads⟩ := ih
    refine ⟨left :: (used ++ [right]), by simp, by simp [opening, closing, free], ?_⟩
    intro rest' _
    have inner := reads (right :: rest') id
    simpa using Derives.group opening inner closing
  | noLinks => exact ⟨[], rfl, freeOf_nil, fun rest' _ => .noLinks⟩
  | @link _ _ _ _ _ _ _ op operator _ _ first later =>
    obtain ⟨used, rfl, free, operand⟩ := first
    obtain ⟨used', rfl, free', more⟩ := later
    have bar : op.lexeme ≠ .character ';' := (joins_zero_iff.mpr operator).ne_semicolon
    refine ⟨op :: (used ++ used'), by simp, by simp [bar, free, free'], ?_⟩
    intro rest' lacks
    have operand := operand (used' ++ rest') (append lacks)
    simpa using Derives.link operator operand (more rest' lacks)
  | expression _ _ first later =>
    obtain ⟨used, rfl, free, operand⟩ := first
    obtain ⟨used', rfl, free', more⟩ := later
    refine ⟨used ++ used', by simp, by simp [free, free'], ?_⟩
    intro rest' lacks
    have operand := operand (used' ++ rest') (append lacks)
    simpa using Derives.expression operand (more rest' lacks)
  | lastArgument _ ih =>
    obtain ⟨used, rfl, free, value⟩ := ih
    exact ⟨used, rfl, free, fun rest' lacks => .lastArgument (value rest' lacks)⟩
  | @argument _ _ _ comma _ _ _ _ _ separator _ first later =>
    obtain ⟨used, rfl, free, value⟩ := first
    obtain ⟨used', rfl, free', more⟩ := later
    refine ⟨used ++ comma :: used', by simp, by simp [separator, free, free'], ?_⟩
    intro rest' lacks
    have value := value (comma :: (used' ++ rest')) id
    simpa using Derives.argument value separator (more rest' lacks)

theorem Phrase.Ends.transfer (ends : phrase.Ends table rest) {rest' : List Token}
    (same : SameHead rest rest') (whole : ∀ args, phrase ≠ .arguments args) : phrase.Ends table rest' := by
  cases phrase with
  | primary _ => exact trivial
  | links _ | expression _ => exact same.not_joins ends
  | arguments args => exact absurd rfl (whole args)

theorem Takes.split (h : Takes table levels phrase tokens rest) (whole : ∀ args, phrase ≠ .arguments args) :
    ∃ used, tokens = used ++ rest ∧ FreeOf ';' used ∧
      ∀ rest', SameHead rest rest' → Takes table levels phrase (used ++ rest') rest' := by
  obtain ⟨ends, depth, within, reads⟩ := h
  obtain ⟨used, rfl, free, reads⟩ := reads.split
  refine ⟨used, rfl, free, fun rest' same => ⟨ends.transfer same whole, depth, within, ?_⟩⟩
  exact reads rest' same.lacks

/-- Where reading gets stuck, only the kind of the token that does not fit matters. -/
theorem Sticks.split (h : Sticks table part levels tokens expected stuck) :
    ∃ used, tokens = used ++ stuck ∧ FreeOf ';' used ∧
      ∀ stuck', SameHead stuck stuck' → Sticks table part levels (used ++ stuck') expected stuck' := by
  induction h with
  | tooDeep => exact ⟨[], rfl, freeOf_nil, fun stuck' _ => .tooDeep⟩
  | noPrimary none =>
    exact ⟨[], rfl, freeOf_nil, fun stuck' same => .noPrimary (same.not_starts none)⟩
  | @inGroup _ _ _ _ left opening _ ih =>
    obtain ⟨used, rfl, free, inner⟩ := ih
    exact ⟨left :: used, rfl, by simp [opening, free], fun stuck' same => .inGroup opening (inner stuck' same)⟩
  | @openGroup _ _ _ _ left opening inner unclosed =>
    obtain ⟨used, rfl, free, inner⟩ := inner.split (by simp)
    exact ⟨left :: used, rfl, by simp [opening, free],
      fun stuck' same => .openGroup opening (inner stuck' same) (same.lacks unclosed)⟩
  | @inCall _ _ _ _ token left _ word opening begun _ ih =>
    obtain ⟨used, rfl, free, inner⟩ := ih
    exact ⟨token :: left :: used, rfl, by simp [word, opening, free],
      fun stuck' same => .inCall word opening ((same.append used).lacks begun) (inner stuck' same)⟩
  | @nextOperand op _ _ _ _ joins _ ih =>
    obtain ⟨used, rfl, free, operand⟩ := ih
    exact ⟨op :: used, rfl, by simp [joins.ne_semicolon, free],
      fun stuck' same => .nextOperand joins (operand stuck' same)⟩
  | @laterOperand op _ _ _ _ _ _ joins operand _ ih =>
    obtain ⟨used, rfl, free, operand⟩ := operand.split (by simp)
    obtain ⟨used', rfl, free', more⟩ := ih
    refine ⟨op :: (used ++ used'), by simp, by simp [joins.ne_semicolon, free, free'], ?_⟩
    intro stuck' same
    simpa using Sticks.laterOperand joins (operand _ (same.append used')) (more stuck' same)
  | firstOperand _ ih =>
    obtain ⟨used, rfl, free, first⟩ := ih
    exact ⟨used, rfl, free, fun stuck' same => .firstOperand (first stuck' same)⟩
  | inLinks first _ ih =>
    obtain ⟨used, rfl, free, first⟩ := first.split (by simp)
    obtain ⟨used', rfl, free', more⟩ := ih
    refine ⟨used ++ used', by simp, by simp [free, free'], ?_⟩
    intro stuck' same
    simpa using Sticks.inLinks (first _ (same.append used')) (more stuck' same)
  | noArgument =>
    refine ⟨[], rfl, freeOf_nil, fun stuck' same => ?_⟩
    cases stuck' with
    | nil => exact .noArgument
    | cons token behind => cases same
  | inArgument some _ ih =>
    obtain ⟨used, rfl, free, value⟩ := ih
    exact ⟨used, rfl, free, fun stuck' same => .inArgument ((same.append used).ne_nil some) (value stuck' same)⟩
  | openCall value unclosed last =>
    obtain ⟨used, rfl, free, value⟩ := value.split (by simp)
    exact ⟨used, rfl, free,
      fun stuck' same => .openCall (value stuck' same) (same.lacks unclosed) (same.lacks last)⟩
  | @laterArgument _ _ _ comma _ _ _ value separator _ ih =>
    obtain ⟨used, rfl, free, value⟩ := value.split (by simp)
    obtain ⟨used', rfl, free', more⟩ := ih
    refine ⟨used ++ comma :: used', by simp, by simp [separator, free, free'], ?_⟩
    intro stuck' same
    have value := value (comma :: (used' ++ stuck')) rfl
    simpa using Sticks.laterArgument value separator (more stuck' same)

theorem Signature.split {proto : Prototype} (h : Signature proto tokens rest) :
    ∃ used, tokens = used ++ rest ∧ FreeOf ';' used ∧ ∀ rest', Signature proto (used ++ rest') rest' := by
  obtain @⟨params, _, token, left, right, _, word, opening, named, closing⟩ := h
  refine ⟨token :: left :: (params ++ [right]), by simp, ?_, fun rest' => ?_⟩
  · simp [word, opening, closing, freeOf_identifiers named]
  · simpa using Signature.intro word opening named closing

theorem DerivesEntity.split (h : ReadsEntity table entity depth tokens rest) :
    ∃ used, tokens = used ++ rest ∧ FreeOf ';' used ∧
      ∀ rest', (Lacks '(' rest → Lacks '(' rest') → ReadsEntity table entity depth (used ++ rest') rest' := by
  cases h with
  | @definition _ _ _ _ _ _ token keyword signature body =>
    obtain ⟨used, rfl, free, front⟩ := signature.split
    obtain ⟨used', rfl, free', body⟩ := body.split
    refine ⟨token :: (used ++ used'), by simp, by simp [keyword, free, free'], fun rest' lacks => ?_⟩
    simpa using DerivesEntity.definition keyword (front (used' ++ rest')) (body rest' lacks)
  | @declaration _ _ _ token keyword signature =>
    obtain ⟨used, rfl, free, signature⟩ := signature.split
    exact ⟨token :: used, rfl, by simp [keyword, free], fun rest' _ => .declaration keyword (signature rest')⟩
  | expression body =>
    obtain ⟨used, rfl, free, body⟩ := body.split
    exact ⟨used, rfl, free, fun rest' lacks => .expression (body rest' lacks)⟩

theorem TakesEntity.split (h : TakesEntity table levels entity tokens rest) :
    ∃ used, tokens = used ++ rest ∧ FreeOf ';' used ∧
      ∀ rest', SameHead rest rest' → TakesEntity table levels entity (used ++ rest') rest' := by
  obtain ⟨ends, depth, within, reads⟩ := h
  obtain ⟨used, rfl, free, reads⟩ := reads.split
  refine ⟨used, rfl, free, fun rest' same => ⟨?_, depth, within, reads rest' same.lacks⟩⟩
  cases entity with
  | function _ => exact same.not_joins ends
  | declaration _ => exact trivial

theorem SignatureSticks.split (h : SignatureSticks tokens expected stuck) :
    ∃ used, tokens = used ++ stuck ∧ FreeOf ';' used ∧
      ∀ stuck', SameHead stuck stuck' → SignatureSticks (used ++ stuck') expected stuck' := by
  cases h with
  | name none =>
    exact ⟨[], rfl, freeOf_nil, fun stuck' same => .name (same.not_identifier none)⟩
  | opening word unopened =>
    exact ⟨[_], rfl, by simp [word], fun stuck' same => .opening word (same.lacks unopened)⟩
  | @closing params _ token left _ word opening named last unclosed =>
    refine ⟨token :: left :: params, rfl, by simp [word, opening, freeOf_identifiers named], ?_⟩
    exact fun stuck' same => .closing word opening named (same.not_identifier last) (same.lacks unclosed)

theorem SticksEntity.split (h : SticksEntity table levels tokens expected stuck) :
    ∃ used, tokens = used ++ stuck ∧ FreeOf ';' used ∧
      ∀ stuck', SameHead stuck stuck' → SticksEntity table levels (used ++ stuck') expected stuck' := by
  cases h with
  | @inSignature _ _ _ _ token keyword signature =>
    obtain ⟨used, rfl, free, signature⟩ := signature.split
    have bar : token.lexeme ≠ .character ';' := by rcases keyword with keyword | keyword <;> simp [keyword]
    exact ⟨token :: used, rfl, by simp [bar, free],
      fun stuck' same => .inSignature keyword (signature stuck' same)⟩
  | @inBody _ _ _ _ _ _ token keyword signature body =>
    obtain ⟨used, rfl, free, front⟩ := signature.split
    obtain ⟨used', rfl, free', body⟩ := body.split
    refine ⟨token :: (used ++ used'), by simp, by simp [keyword, free, free'], fun stuck' same => ?_⟩
    simpa using SticksEntity.inBody keyword (front (used' ++ stuck')) (body stuck' same)
  | inExpression bare body =>
    obtain ⟨used, rfl, free, body⟩ := body.split
    exact ⟨used, rfl, free,
      fun stuck' same => .inExpression ((same.append used).isBare bare) (body stuck' same)⟩

end Kaleidoscope.Grammar
