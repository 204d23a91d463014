import Kaleidoscope.Proofs.Grammar.Locality
import Kaleidoscope.Proofs.Grammar.Nesting

/-! Reading does not depend on where the tokens stand. From the same lexemes at other places the same phrases
are read, with their parts at those places, and reading gets stuck at the same tokens. -/
namespace Kaleidoscope

namespace Expr

mutual

def relocate (move : Location → Location) : Expr → Expr
  | .number value at? => .number value (at?.map move)
  | .var name at? => .var name (at?.map move)
  | .binary op lhs rhs at? => .binary op (lhs.relocate move) (rhs.relocate move) (at?.map move)
  | .call callee args at? => .call callee (relocateAll move args) (at?.map move)

def relocateAll (move : Location → Location) : List Expr → List Expr
  | [] => []
  | e :: rest => e.relocate move :: relocateAll move rest

end

@[simp] theorem location?_relocate (move : Location → Location) (e : Expr) :
    (e.relocate move).location? = e.location?.map move := by
  cases e <;> rfl

end Expr

def Prototype.relocate (move : Location → Location) (proto : Prototype) : Prototype :=
  { proto with at? := proto.at?.map move }

def Function.relocate (move : Location → Location) (f : Function) : Function :=
  ⟨f.proto.relocate move, f.body.relocate move, f.at?.map move⟩

@[simp] theorem Function.relocate_anonymous (move : Location → Location) (body : Expr) :
    (anonymous body).relocate move = anonymous (body.relocate move) := by
  simp [anonymous, relocate, Prototype.relocate]

def Entity.relocate (move : Location → Location) : Entity → Entity
  | .declaration proto => .declaration (proto.relocate move)
  | .function f => .function (f.relocate move)

def Diagnostic.relocate (move : Location → Location) (diagnostic : Diagnostic) : Diagnostic :=
  { diagnostic with location? := diagnostic.location?.map move }

def Outcome.relocate (move : Location → Location) : Outcome → Outcome
  | .finished => .finished
  | .separator => .separator
  | .accepted entity => .accepted (entity.relocate move)
  | .refused diagnostic => .refused (diagnostic.relocate move)

/-- The tokens keep their lexemes and stand at other places. -/
structure Moves (move : Location → Location) (f : Token → Token) : Prop where
  lexeme : ∀ token, (f token).lexeme = token.lexeme
  location : ∀ token, (f token).location = move token.location

variable {move : Location → Location} {f : Token → Token}

namespace Moves

open Grammar

variable {token : Token}

theorem keeps {lexeme : Lexeme} (moves : Moves move f) (h : token.lexeme = lexeme) : (f token).lexeme = lexeme :=
  (moves.lexeme token).trans h

theorem sameHead (moves : Moves move f) (tokens : List Token) : SameHead tokens (tokens.map f) := by
  cases tokens with
  | nil => rfl
  | cons token behind => exact congrArg some (moves.lexeme token)

theorem joins {table : OperatorTable} (moves : Moves move f) (joins : Joins table 0 token) :
    Joins table 0 (f token) := by
  simpa only [Joins, moves.lexeme] using joins

theorem identifiers (moves : Moves move f) {params : List Token}
    (named : ∀ param ∈ params, isIdentifier param = true) :
    ∀ param ∈ params.map f, isIdentifier param = true := by
  simpa [isIdentifier, moves.lexeme] using named

end Moves

namespace Chain

def relocate (move : Location → Location) (f : Token → Token) (link : Link) : Link :=
  ⟨f link.op, link.precedence, link.operand.relocate move⟩

theorem Pivot.relocate {links before behind : List Link} {link : Link}
    (pivot : Pivot links before link behind) (move : Location → Location) (f : Token → Token) :
    Pivot (links.map (relocate move f)) (before.map (relocate move f)) (relocate move f link)
      (behind.map (relocate move f)) where
  split := by
    rw [pivot.split]
    simp
  least := by simpa [Chain.relocate] using pivot.least
  rightmost := by simpa [Chain.relocate] using pivot.rightmost

theorem reference_relocate (moves : Moves move f) (operand : Expr) (links : List Link) :
    (reference operand links).relocate move =
      reference (operand.relocate move) (links.map (relocate move f)) := by
  induction operand, links using reference.induct with
  | case1 operand links found =>
    obtain rfl := pivot?_eq_none.mp found
    simp
  | case2 operand links before link behind found left right =>
    have pivot := pivot_of_pivot? found
    rw [reference_pivot pivot, reference_pivot (pivot.relocate move f), ← left]
    simp only [join, Expr.relocate, right, Option.map_some, relocate, moves.lexeme, moves.location]

end Chain

namespace Grammar

def Phrase.relocate (move : Location → Location) (f : Token → Token) : Phrase → Phrase
  | primary e => primary (e.relocate move)
  | links found => links (found.map (Chain.relocate move f))
  | expression e => expression (e.relocate move)
  | arguments args => arguments (Expr.relocateAll move args)

variable {table : OperatorTable} {phrase : Phrase} {part : Part} {entity : Entity} {proto : Prototype}
  {depth levels : Nat} {tokens rest stuck : List Token} {expected : Expectation}

theorem Derives.relocate (moves : Moves move f) (h : Reads table phrase depth tokens rest) :
    Reads table (phrase.relocate move f) depth (tokens.map f) (rest.map f) := by
  induction h with
  | number literal =>
    simpa [Phrase.relocate, Expr.relocate, moves.location] using Derives.number (moves.keeps literal)
  | name word ends =>
    have ends := (moves.sameHead _).lacks ends
    simpa [Phrase.relocate, Expr.relocate, moves.location] using Derives.name (moves.keeps word) ends
  | emptyCall word opening closing =>
    simpa [Phrase.relocate, Expr.relocate, Expr.relocateAll, moves.location] using
      Derives.emptyCall (moves.keeps word) (moves.keeps opening) (moves.keeps closing)
  | call word opening _ closing ih =>
    simpa [Phrase.relocate, Expr.relocate, moves.location] using
      Derives.call (moves.keeps word) (moves.keeps opening) ih (moves.keeps closing)
  | group opening _ closing ih => exact .group (moves.keeps opening) ih (moves.keeps closing)
  | noLinks => exact .noLinks
  | link operator _ _ operand more =>
    have operator := joins_zero_iff.mp (moves.joins (joins_zero_iff.mpr operator))
    simpa [Phrase.relocate, Chain.relocate, moves.lexeme] using Derives.link operator operand more
  | expression _ _ first more =>
    simpa [Phrase.relocate, Chain.reference_relocate moves] using Derives.expression first more
  | lastArgument _ ih => exact .lastArgument ih
  | argument _ separator _ value more => exact .argument value (moves.keeps separator) more

theorem Takes.relocate (moves : Moves move f) (h : Takes table levels phrase tokens rest)
    (whole : ∀ args, phrase ≠ .arguments args) :
    Takes table levels (phrase.relocate move f) (tokens.map f) (rest.map f) := by
  obtain ⟨ends, depth, within, reads⟩ := h
  refine ⟨?_, depth, within, reads.relocate moves⟩
  have ends := ends.transfer (moves.sameHead rest) whole
  cases phrase with
  | arguments args => exact absurd rfl (whole args)
  | _ => exact ends

theorem Sticks.relocate (moves : Moves move f) (h : Sticks table part levels tokens expected stuck) :
    Sticks table part levels (tokens.map f) expected (stuck.map f) := by
  induction h with
  | tooDeep => exact .tooDeep
  | noPrimary none => exact .noPrimary ((moves.sameHead _).not_starts none)
  | inGroup opening _ ih => exact .inGroup (moves.keeps opening) ih
  | openGroup opening inner unclosed =>
    exact .openGroup (moves.keeps opening) (inner.relocate moves (by simp)) ((moves.sameHead _).lacks unclosed)
  | inCall word opening begun _ ih =>
    exact .inCall (moves.keeps word) (moves.keeps opening) ((moves.sameHead _).lacks begun) ih
  | nextOperand joins _ ih => exact .nextOperand (moves.joins joins) ih
  | laterOperand joins operand _ ih =>
    exact .laterOperand (moves.joins joins) (operand.relocate moves (by simp)) ih
  | firstOperand _ ih => exact .firstOperand ih
  | inLinks first _ ih => exact .inLinks (first.relocate moves (by simp)) ih
  | noArgument => exact .noArgument
  | inArgument some _ ih => exact .inArgument (by simpa using some) ih
  | openCall value unclosed last =>
    exact .openCall (value.relocate moves (by simp)) ((moves.sameHead _).lacks unclosed)
      ((moves.sameHead _).lacks last)
  | laterArgument value separator _ ih =>
    exact .laterArgument (value.relocate moves (by simp)) (moves.keeps separator) ih

theorem Signature.relocate (moves : Moves move f) (h : Signature proto tokens rest) :
    Signature (proto.relocate move) (tokens.map f) (rest.map f) := by
  obtain ⟨word, opening, named, closing⟩ := h
  simpa [Prototype.relocate, moves.location, moves.lexeme, Function.comp_def] using
    Signature.intro (moves.keeps word) (moves.keeps opening) (moves.identifiers named)
      (moves.keeps closing)

theorem DerivesEntity.relocate (moves : Moves move f) (h : ReadsEntity table entity depth tokens rest) :
    ReadsEntity table (entity.relocate move) depth (tokens.map f) (rest.map f) := by
  cases h with
  | definition keyword signature body =>
    simpa [Entity.relocate, Function.relocate, moves.location] using
      DerivesEntity.definition (moves.keeps keyword) (signature.relocate moves) (body.relocate moves)
  | declaration keyword signature => exact .declaration (moves.keeps keyword) (signature.relocate moves)
  | expression body => simpa [Entity.relocate] using DerivesEntity.expression (body.relocate moves)

theorem TakesEntity.relocate (moves : Moves move f) (h : TakesEntity table levels entity tokens rest) :
    TakesEntity table levels (entity.relocate move) (tokens.map f) (rest.map f) := by
  obtain ⟨ends, depth, within, reads⟩ := h
  refine ⟨?_, depth, within, reads.relocate moves⟩
  cases entity with
  | declaration _ => exact trivial
  | function _ => exact (moves.sameHead rest).not_joins ends

theorem SignatureSticks.relocate (moves : Moves move f) (h : SignatureSticks tokens expected stuck) :
    SignatureSticks (tokens.map f) expected (stuck.map f) := by
  cases h with
  | name none => exact .name ((moves.sameHead _).not_identifier none)
  | opening word unopened => exact .opening (moves.keeps word) ((moves.sameHead _).lacks unopened)
  | closing word opening named last unclosed =>
    simpa using SignatureSticks.closing (moves.keeps word) (moves.keeps opening)
      (moves.identifiers named) ((moves.sameHead _).not_identifier last)
      ((moves.sameHead _).lacks unclosed)

theorem SticksEntity.relocate (moves : Moves move f) (h : SticksEntity table levels tokens expected stuck) :
    SticksEntity table levels (tokens.map f) expected (stuck.map f) := by
  cases h with
  | inSignature keyword signature =>
    have keyword := keyword.imp moves.keeps moves.keeps
    exact .inSignature keyword (signature.relocate moves)
  | inBody keyword signature body =>
    exact .inBody (moves.keeps keyword) (signature.relocate moves) (body.relocate moves)
  | inExpression bare body => exact .inExpression ((moves.sameHead _).isBare bare) (body.relocate moves)

end Grammar

namespace Parser

open Grammar

variable {p q p' q' : Parser}

theorem nextEntity_suffix (p : Parser) : p.nextEntity.2.ahead <:+ p.ahead := by
  rcases p.nextEntity_cases with ⟨nothing, attempt⟩ | ⟨token, rest, front, -, attempt⟩ |
    ⟨entity, rest, yields, attempt⟩ | ⟨_, _, expected, rest, q, -, -, fails, rfl, attempt⟩
  all_goals rw [attempt]
  · exact List.suffix_refl _
  · exact front ▸ List.suffix_cons token rest
  · obtain ⟨used, front, -⟩ := (yields_entity_iff.mp yields).split
    exact ⟨used, front.symm⟩
  · obtain ⟨used, front, -⟩ := (fails_entity_iff.mp fails).split
    exact ⟨used, front.symm⟩

theorem current_mem (p : Parser) : p.current ∈ p.sequence.final :: p.ahead := by
  rw [current]
  cases p.ahead <;> simp

/-- The second parser goes through the tokens of the first at other places. -/
structure Echoes (move : Location → Location) (f : Token → Token) (p q : Parser) : Prop where
  moves : Moves move f
  table : q.table = p.table
  nesting : q.nesting = p.nesting
  final : q.sequence.final = f p.sequence.final
  ahead : q.ahead = p.ahead.map f

namespace Echoes

theorem further (h : Echoes move f p q) (there : p.Elsewhere p') (there' : q.Elsewhere q')
    (ahead : q'.ahead = p'.ahead.map f) : Echoes move f p' q' := by
  obtain ⟨table, nesting, sequence⟩ := there
  obtain ⟨table', nesting', sequence'⟩ := there'
  refine ⟨h.moves, ?_, ?_, ?_, ahead⟩
  · rw [table, table', h.table]
  · rw [nesting, nesting', h.nesting]
  · rw [sequence, sequence', h.final]

theorem current (h : Echoes move f p q) : q.current = f p.current := by
  rw [Parser.current, Parser.current, h.ahead, h.final]
  cases p.ahead <;> rfl

/-- An attempt has the same outcome at the other places, apart from the lines that a diagnostic quotes. -/
theorem nextEntity (h : Echoes move f p q) :
    Echoes move f p.nextEntity.2 q.nextEntity.2 ∧
      (q.nextEntity.1 = p.nextEntity.1.relocate move ∨
        ∃ expected, p.nextEntity.1 = .refused (p.nextEntity.2.diagnose expected) ∧
          q.nextEntity.1 = .refused (q.nextEntity.2.diagnose expected)) := by
  have levels : q.levels = p.levels := congrArg Int.toNat h.nesting
  have further {outcome outcome' : Outcome} {p' q' : Parser} (attempt : p.nextEntity = (outcome, p'))
      (attempt' : q.nextEntity = (outcome', q')) (ahead : q'.ahead = p'.ahead.map f) :
      Echoes move f p' q' := by
    have there := p.elsewhere_nextEntity
    have there' := q.elsewhere_nextEntity
    rw [attempt] at there
    rw [attempt'] at there'
    exact h.further there there' ahead
  rcases p.nextEntity_cases with ⟨nothing, attempt⟩ | ⟨token, rest, front, semicolon, attempt⟩ |
    ⟨entity, rest, yields, attempt⟩ | ⟨token, behind, expected, rest, p', front, other, fails, reached, attempt⟩
  · have same : q.nextEntity = (.finished, q.look) := nextEntity_nil (by simp [h.ahead, nothing])
    rw [attempt, same]
    exact ⟨further attempt same h.ahead, .inl rfl⟩
  · have same : q.nextEntity = (.separator, { q.look with ahead := rest.map f }) :=
      nextEntity_separator (by rw [h.ahead, front, List.map_cons]) (h.moves.keeps semicolon)
    rw [attempt, same]
    exact ⟨further attempt same rfl, .inl rfl⟩
  · have takes := (yields_entity_iff.mp yields).relocate h.moves
    rw [← h.table, ← levels, ← h.ahead] at takes
    have same : q.nextEntity = (.accepted (entity.relocate move), { q.look with ahead := rest.map f }) :=
      nextEntity_eq_accepted_iff.mpr ⟨takes, rfl⟩
    rw [attempt, same]
    exact ⟨further attempt same rfl, .inl rfl⟩
  · have sticks := (fails_entity_iff.mp fails).relocate h.moves
    rw [← h.table, ← levels, ← h.ahead] at sticks
    have bare : ∃ token behind, q.ahead = token :: behind ∧ token.isChar ';' = false :=
      ⟨f token, behind.map f, by rw [h.ahead, front, List.map_cons],
        by simpa [Token.isChar, h.moves.lexeme] using other⟩
    obtain ⟨q', reached'⟩ : ∃ q' : Parser, q' = { q.look with ahead := rest.map f } := ⟨_, rfl⟩
    have same : q.nextEntity = (.refused (q'.diagnose expected), q') :=
      nextEntity_eq_refused_iff.mpr ⟨bare, expected, by simpa [reached'] using sticks, by simp [reached'], rfl⟩
    rw [attempt, same]
    exact ⟨further attempt same (by simp [reached, reached']), .inr ⟨expected, rfl, rfl⟩⟩

end Echoes

/-- The second parser goes through the tokens of the first at other places, where they quote the same lines. -/
structure Relocates (move : Location → Location) (f : Token → Token) (p q : Parser) : Prop
    extends Echoes move f p q where
  quoted : ∀ token ∈ p.sequence.final :: p.ahead, (f token).sourceLine? = token.sourceLine?

namespace Relocates

theorem further (h : Relocates move f p q) (there : p.Elsewhere p') (there' : q.Elsewhere q')
    (suffix : p'.ahead <:+ p.ahead) (ahead : q'.ahead = p'.ahead.map f) : Relocates move f p' q' := by
  refine ⟨h.toEchoes.further there there' ahead, fun token member => h.quoted token ?_⟩
  obtain ⟨-, -, sequence⟩ := there
  rw [sequence] at member
  exact List.cons_subset_cons _ suffix.subset member

theorem diagnose (h : Relocates move f p q) (expected : Expectation) :
    q.diagnose expected = (p.diagnose expected).relocate move := by
  have quoted := h.quoted p.current p.current_mem
  simp [Parser.diagnose, Diagnostic.relocate, h.current, h.nesting, quoted, Token.description,
    h.moves.lexeme, h.moves.location]

theorem nextEntity (h : Relocates move f p q) :
    q.nextEntity.1 = p.nextEntity.1.relocate move ∧ Relocates move f p.nextEntity.2 q.nextEntity.2 := by
  obtain ⟨echoes, same⟩ := h.toEchoes.nextEntity
  have relocates : Relocates move f p.nextEntity.2 q.nextEntity.2 :=
    h.further p.elsewhere_nextEntity q.elsewhere_nextEntity p.nextEntity_suffix echoes.ahead
  refine ⟨?_, relocates⟩
  rcases same with same | ⟨expected, refused, refused'⟩
  · exact same
  · rw [refused, refused', relocates.diagnose]
    rfl

end Relocates

end Parser
end Kaleidoscope
