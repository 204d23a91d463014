import Kaleidoscope.Proofs.Grammar.Acceptance
import Kaleidoscope.Proofs.Grammar.Locality

/-! Attempts are refused at the earliest token. What has been read up to there can be completed to an entity,
and with the token that does not fit it cannot. -/
namespace Kaleidoscope

def Problem.found? : Problem → Option String
  | .unexpectedToken _ found _ | .missingToken _ _ found | .nestingTooDeep _ found _ => some found
  | _ => none

/-- A token of this lexeme that stands nowhere. -/
def Token.saying (lexeme : Lexeme) : Token := ⟨lexeme, default, .start, none⟩

namespace Grammar

/-- The tokens are an entity, whatever may follow a name. -/
def IsEntity (table : OperatorTable) (tokens : List Token) : Prop :=
  ∃ entity depth, DerivesEntity table (fun _ => True) entity depth tokens []

/-- The tokens can be completed to an entity. -/
def IsViable (table : OperatorTable) (tokens : List Token) : Prop :=
  ∃ more, IsEntity table (tokens ++ more)

def Part.IsWhole (table : OperatorTable) (tokens : List Token) : Part → Prop
  | primary => ∃ e depth, Reads table (.primary e) depth tokens []
  | links => ∃ found depth, Reads table (.links found) depth tokens []
  | expression => ∃ e depth, Reads table (.expression e) depth tokens []
  | arguments => ∃ args depth, Reads table (.arguments args) depth tokens []

variable {table : OperatorTable} {phrase : Phrase} {part : Part} {entity : Entity} {e : Expr}
  {depth levels : Nat} {tokens rest stuck : List Token} {expected : Expectation}

/-- Before any token that opens no call, a phrase may end as it may at the end of the tokens. -/
theorem Derives.followed (h : Reads table phrase depth tokens []) (lacks : Lacks '(' rest) :
    Reads table phrase depth (tokens ++ rest) rest := by
  obtain ⟨used, rfl, -, reads⟩ := h.split
  rw [List.append_nil]
  exact reads rest fun _ => lacks

theorem Takes.cut (h : Takes table levels phrase tokens rest) (rest' : List Token)
    (lacks : Lacks '(' rest') :
    ∃ used depth, tokens = used ++ rest ∧ Reads table phrase depth (used ++ rest') rest' := by
  obtain ⟨-, depth, -, reads⟩ := h
  obtain ⟨used, rfl, -, reads⟩ := reads.split
  exact ⟨used, depth, rfl, reads rest' fun _ => lacks⟩

theorem isWhole_name : Part.primary.IsWhole table [.saying (.identifier "x")] :=
  ⟨_, _, .name rfl (by simp [Lacks])⟩

theorem isWhole_variable : Part.expression.IsWhole table [.saying (.identifier "x")] := by
  obtain ⟨e, depth, name⟩ := @isWhole_name table
  exact ⟨_, _, .expression name .noLinks⟩

theorem isWhole_group {left : Token} (opening : left.lexeme = .character '(')
    (inner : Part.expression.IsWhole table tokens) :
    Part.primary.IsWhole table (left :: (tokens ++ [.saying (.character ')')])) := by
  obtain ⟨e, depth, reads⟩ := inner
  exact ⟨e, depth + 1, .group opening (reads.followed (by simp [Lacks, Token.saying])) rfl⟩

theorem isWhole_call {token left : Token} {name : String} (word : token.lexeme = .identifier name)
    (opening : left.lexeme = .character '(') (inner : Part.arguments.IsWhole table tokens) :
    Part.primary.IsWhole table (token :: left :: (tokens ++ [.saying (.character ')')])) := by
  obtain ⟨args, depth, reads⟩ := inner
  exact ⟨_, depth + 1, .call word opening (reads.followed (by simp [Lacks, Token.saying])) rfl⟩

/-- What has been read of a phrase where reading gets stuck is the beginning of a whole one. -/
theorem Sticks.viable (h : Sticks table part levels tokens expected stuck) :
    ∃ used more, tokens = used ++ stuck ∧ part.IsWhole table (used ++ more) := by
  induction h with
  | tooDeep => exact ⟨[], _, rfl, isWhole_name⟩
  | noPrimary _ => exact ⟨[], _, rfl, isWhole_name⟩
  | @inGroup _ _ _ _ left opening _ ih =>
    obtain ⟨used, more, rfl, inner⟩ := ih
    exact ⟨left :: used, more ++ [_], rfl, by simpa using isWhole_group opening inner⟩
  | @openGroup _ _ _ _ left opening inner _ =>
    obtain ⟨used, depth, rfl, front⟩ := inner.cut [.saying (.character ')')] (by simp [Lacks, Token.saying])
    exact ⟨left :: used, _, rfl, _, _, .group opening front rfl⟩
  | @inCall _ _ _ _ token left _ word opening _ _ ih =>
    obtain ⟨used, more, rfl, inner⟩ := ih
    exact ⟨token :: left :: used, more ++ [_], rfl, by simpa using isWhole_call word opening inner⟩
  | @nextOperand op _ _ _ _ joins _ ih =>
    obtain ⟨used, more, rfl, e, depth, operand⟩ := ih
    exact ⟨op :: used, more, rfl, _, _, .link joins.1 operand .noLinks⟩
  | @laterOperand op _ _ _ _ _ _ joins operand _ ih =>
    obtain ⟨used', more, rfl, found, depth', links⟩ := ih
    obtain ⟨used, depth, rfl, front⟩ := operand.cut _ (links.lacks_opening (by simp [Lacks]))
    exact ⟨op :: (used ++ used'), more, by simp, _, _, by simpa using Derives.link joins.1 front links⟩
  | firstOperand _ ih =>
    obtain ⟨used, more, rfl, e, depth, first⟩ := ih
    exact ⟨used, more, rfl, _, _, .expression first .noLinks⟩
  | inLinks first _ ih =>
    obtain ⟨used', more, rfl, found, depth', links⟩ := ih
    obtain ⟨used, depth, rfl, front⟩ := first.cut _ (links.lacks_opening (by simp [Lacks]))
    exact ⟨used ++ used', more, by simp, _, _, by simpa using Derives.expression front links⟩
  | noArgument =>
    obtain ⟨e, depth, value⟩ := @isWhole_variable table
    exact ⟨[], _, rfl, _, _, .lastArgument value⟩
  | inArgument _ _ ih =>
    obtain ⟨used, more, rfl, e, depth, value⟩ := ih
    exact ⟨used, more, rfl, _, _, .lastArgument value⟩
  | openCall value _ _ =>
    obtain ⟨used, depth, rfl, front⟩ := value.cut [] (by simp [Lacks])
    exact ⟨used, [], rfl, _, _, .lastArgument front⟩
  | @laterArgument _ _ _ comma _ _ _ value separator _ ih =>
    obtain ⟨used', more, rfl, args, depth', others⟩ := ih
    obtain ⟨used, depth, rfl, front⟩ := value.cut (comma :: (used' ++ more)) (lacks_of_lexeme (by simp [separator]))
    exact ⟨used ++ comma :: used', more, by simp, _, _, by simpa using Derives.argument front separator others⟩

theorem SignatureSticks.viable (h : SignatureSticks tokens expected stuck) :
    ∃ used more proto, tokens = used ++ stuck ∧ Signature proto (used ++ more) [] := by
  have none : ∀ param ∈ ([] : List Token), isIdentifier param = true := by simp
  let name := Token.saying (.identifier "f")
  let left := Token.saying (.character '(')
  let right := Token.saying (.character ')')
  cases h with
  | name _ =>
    exact ⟨[], [name, left, right], _, rfl, @Signature.intro [] "f" name left right [] rfl rfl none rfl⟩
  | @opening _ token _ word _ =>
    exact ⟨[token], [left, right], _, rfl, @Signature.intro [] _ token left right [] word rfl none rfl⟩
  | @closing params _ token left _ word opening named _ _ =>
    exact ⟨token :: left :: params, [right], _, rfl, .intro word opening named rfl⟩

theorem SticksEntity.viable (h : SticksEntity table levels tokens expected stuck) :
    ∃ used, tokens = used ++ stuck ∧ IsViable table used := by
  cases h with
  | @inSignature _ _ _ _ token keyword signature =>
    obtain ⟨used, more, proto, rfl, whole⟩ := signature.viable
    rcases keyword with keyword | keyword
    · obtain ⟨e, depth, body⟩ := @isWhole_variable table
      obtain ⟨front, same, -, signature⟩ := whole.split
      have signature := signature [.saying (.identifier "x")]
      rw [← front.append_nil, ← same, List.append_assoc] at signature
      exact ⟨token :: used, rfl, more ++ [_], _, _,
        .definition keyword signature (body.mono fun _ _ => trivial)⟩
    · exact ⟨token :: used, rfl, more, _, _, .declaration keyword whole⟩
  | @inBody _ _ _ _ _ _ token keyword signature body =>
    obtain ⟨used', more, rfl, e, depth, body⟩ := body.viable
    obtain ⟨used, rfl, -, front⟩ := signature.split
    exact ⟨token :: (used ++ used'), by simp, more, _, _,
      by simpa using DerivesEntity.definition keyword (front _) (body.mono fun _ _ => trivial)⟩
  | inExpression _ body =>
    obtain ⟨used, more, rfl, e, depth, body⟩ := body.viable
    exact ⟨used, rfl, more, _, _, .expression (body.mono fun _ _ => trivial)⟩

theorem DerivesEntity.reads {alone : List Token → Prop}
    (h : DerivesEntity table alone entity depth tokens rest) (lacks : Lacks '(' rest) :
    ReadsEntity table entity depth tokens rest := by
  cases h with
  | definition keyword signature body => exact .definition keyword signature (body.reads lacks)
  | declaration keyword signature => exact .declaration keyword signature
  | expression body => exact .expression (body.reads lacks)

/-- What has been read is no entity yet, and none starts with it and the token that does not fit. -/
theorem SticksEntity.not_isEntity {used : List Token} (h : SticksEntity table levels (used ++ stuck) expected stuck)
    (other : expected ≠ .shallowerNesting) {stuck' : List Token} (same : SameHead stuck stuck') :
    ¬ IsEntity table (used ++ stuck') := by
  intro whole
  obtain ⟨entity, depth, derives⟩ := whole
  have reads := derives.reads (by simp [Lacks])
  have yields : (Grammar.entity table (max levels depth) (used ++ stuck')).Yields entity [] :=
    reads.yields (Nat.le_max_right levels depth) (by simp)
  obtain ⟨used', front, -, sticks⟩ := h.split
  obtain rfl := List.append_cancel_right front
  have sticks := (sticks stuck' same).deeper other (Nat.le_max_left levels depth)
  exact yields.not_fails (fails_entity_iff.mpr sticks)

end Grammar

namespace Parser

open Grammar

variable {p q : Parser} {diagnostic : Diagnostic}

theorem found?_problem (expected : Expectation) (found : String) (limit : Int) :
    (expected.problem found limit).found? = some found := by
  cases expected <;> rfl

/-- A refusal that is not for the nesting comes at the first token that does not fit. The tokens read up to
it are the beginning of an entity; with this token they are not, and where the input ends they are no entity.
The diagnostic is about this token, and it is still to be read. -/
theorem nextEntity_refused_earliest (refused : p.nextEntity = (.refused diagnostic, q))
    (other : ∀ message found limit, diagnostic.problem ≠ .nestingTooDeep message found limit) :
    ∃ used, p.ahead = used ++ q.ahead ∧ q = { p.look with ahead := q.ahead } ∧ IsViable p.table used ∧
      (∀ token ∈ q.ahead.head?, ¬ IsViable p.table (used ++ [token])) ∧
      (q.ahead = [] → ¬ IsEntity p.table used) ∧
      diagnostic.location? = some q.current.location ∧
      diagnostic.problem.found? = some q.current.description := by
  obtain ⟨-, expected, sticks, reached, rfl⟩ := nextEntity_eq_refused_iff.mp refused
  have elsewhere : expected ≠ .shallowerNesting := by
    rintro rfl
    exact other _ _ _ rfl
  obtain ⟨used, front, viable⟩ := sticks.viable
  rw [front] at sticks
  refine ⟨used, front, reached, viable, ?_, ?_, rfl, found?_problem ..⟩
  · intro token first extended
    obtain ⟨more, whole⟩ := extended
    obtain ⟨behind, ahead⟩ := List.head?_eq_some_iff.mp first
    rw [List.append_assoc] at whole
    exact sticks.not_isEntity elsewhere (by simp [ahead, SameHead]) whole
  · intro ended whole
    rw [← List.append_nil used] at whole
    exact sticks.not_isEntity elsewhere (by simp [ended, SameHead]) whole

/-- An argument behind which neither a parenthesis nor a comma stands. -/
theorem nextEntity_refused_earliest_call :
    let p := ofText .standard 6 "call" "def g(x) f(x * (2 y"
    ∃ diagnostic q, p.nextEntity = (.refused diagnostic, q) ∧
      (∀ message found limit, diagnostic.problem ≠ .nestingTooDeep message found limit) ∧
      ∃ used, p.ahead = used ++ q.ahead ∧ q = { p.look with ahead := q.ahead } ∧ IsViable p.table used ∧
        (∀ token ∈ q.ahead.head?, ¬ IsViable p.table (used ++ [token])) ∧
        (q.ahead = [] → ¬ IsEntity p.table used) ∧
        diagnostic.location? = some q.current.location ∧
        diagnostic.problem.found? = some q.current.description := by
  intro p
  let diagnostic : Diagnostic :=
    ⟨.missingToken "expected ')'" "')'" "identifier 'y'", some ⟨"call", 1, 19⟩, some "def g(x) f(x * (2 y"⟩
  have refused : p.nextEntity = (.refused diagnostic, p.nextEntity.2) :=
    Prod.ext (by decide +kernel) rfl
  have other : ∀ message found limit, diagnostic.problem ≠ .nestingTooDeep message found limit := by
    simp [diagnostic]
  exact ⟨diagnostic, _, refused, other, nextEntity_refused_earliest refused other⟩

end Parser
end Kaleidoscope
