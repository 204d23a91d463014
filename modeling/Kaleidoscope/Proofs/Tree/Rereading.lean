import Kaleidoscope.Proofs.Grammar.Acceptance
import Kaleidoscope.Proofs.Tree.Canonical

/-! Tokens that say the canonical text of an expression are a primary for the same expression, at a depth of
nesting that is the height of the tree. -/
namespace Kaleidoscope

open Grammar

variable {table : OperatorTable}

theorem Chain.reference_single (operand : Expr) (op : Token) (precedence : Int) (e : Expr) :
    Chain.reference operand [⟨op, precedence, e⟩] =
      .binary op.lexeme.text operand e (some op.location) := by
  rw [← Chain.tree_eq_reference]
  rfl

theorem Grammar.Derives.alone {alone : List Token → Prop} {e : Expr} {depth : Nat} {tokens rest : List Token}
    (h : Derives table alone (.primary e) depth tokens rest) :
    Derives table alone (.expression e) depth tokens rest := by
  have expression := Derives.expression h .noLinks
  rwa [Chain.reference_nil, Nat.max_zero] at expression

theorem Grammar.Derives.binary {alone : List Token → Prop} {lhs rhs : Expr} {depth depth' : Nat} {op : Token}
    {tokens behind rest : List Token} (left : Derives table alone (.primary lhs) depth tokens (op :: behind))
    (operator : 0 < table.precedence op.lexeme)
    (right : Derives table alone (.primary rhs) depth' behind rest) :
    Derives table alone (.expression (.binary op.lexeme.text lhs rhs (some op.location))) (max depth depth')
      tokens rest := by
  have expression := Derives.expression left (.link operator right .noLinks)
  rwa [Chain.reference_single, Nat.max_zero] at expression

namespace Expr

mutual

theorem reads_lexemes {tokens : List Token} (rest : List Token) : (e : Expr) → e.Within (canonical table) →
    tokens.map (·.lexeme) = e.lexemes → Lacks '(' rest →
      ∃ e', e'.bare = e.bare ∧ Reads table (.primary e') e.height (tokens ++ rest) rest
  | .number value _, _, same, _ => by
    obtain ⟨token, rfl, literal⟩ := List.map_eq_singleton_iff.mp same
    exact ⟨.number value (some token.location), rfl, .number literal⟩
  | .var name _, _, same, lacks => by
    obtain ⟨token, rfl, word⟩ := List.map_eq_singleton_iff.mp same
    exact ⟨.var name (some token.location), rfl, .name word lacks⟩
  | .binary op lhs rhs _, ⟨⟨c, single, positive⟩, left, right⟩, same, _ => by
    obtain ⟨opening, inner, rfl, open', same⟩ := List.map_eq_cons_iff.mp same
    obtain ⟨before, behind, rfl, sameLeft, same⟩ := List.map_eq_append_iff.mp same
    obtain ⟨middle, behind, rfl, sameOp, same⟩ := List.map_eq_append_iff.mp same
    obtain ⟨after, last, rfl, sameRight, same⟩ := List.map_eq_append_iff.mp same
    obtain ⟨closing, rfl, close⟩ := List.map_eq_singleton_iff.mp same
    obtain ⟨token, rfl, operator⟩ : ∃ token, middle = [token] ∧ token.lexeme = .character c := by
      subst single
      exact List.map_eq_singleton_iff.mp (by simpa using sameOp)
    obtain ⟨lhs', bareLeft, readsLeft⟩ := reads_lexemes (token :: (after ++ closing :: rest)) lhs left
      sameLeft (lacks_opening_of_operator (operator ▸ positive))
    obtain ⟨rhs', bareRight, readsRight⟩ := reads_lexemes (closing :: rest) rhs right sameRight
      (lacks_of_lexeme (by simp [close]))
    have inner := readsLeft.binary (operator ▸ positive) readsRight
    refine ⟨.binary op lhs' rhs' (some token.location), by simp [Expr.bare, bareLeft, bareRight], ?_⟩
    simpa [height, operator, single, Lexeme.text] using Derives.group open' inner close
  | .call callee args _, ⟨_, inner⟩, same, _ => by
    obtain ⟨token, behind, rfl, word, same⟩ := List.map_eq_cons_iff.mp same
    obtain ⟨left, behind, rfl, opening, same⟩ := List.map_eq_cons_iff.mp same
    obtain ⟨between, last, rfl, sameArgs, same⟩ := List.map_eq_append_iff.mp same
    obtain ⟨right, rfl, closing⟩ := List.map_eq_singleton_iff.mp same
    cases args with
    | nil =>
      obtain rfl := List.map_eq_nil_iff.mp sameArgs
      exact ⟨.call callee [] (some token.location), rfl, .emptyCall word opening closing⟩
    | cons e others =>
      obtain ⟨args', bare, reads⟩ := reads_argumentLexemes (right :: rest) (e :: others) (by simp)
        inner sameArgs (lacks_of_lexeme (by simp [closing]))
      refine ⟨.call callee args' (some token.location), by simp [Expr.bare, bare], ?_⟩
      simpa [height] using Derives.call word opening reads closing

theorem reads_argumentLexemes {tokens : List Token} (rest : List Token) : (args : List Expr) → args ≠ [] →
    WithinAll (canonical table) args → tokens.map (·.lexeme) = argumentLexemes args → Lacks '(' rest →
      ∃ args', bareAll args' = bareAll args ∧
        Reads table (.arguments args') (heightAll args) (tokens ++ rest) rest
  | [], nonempty, _, _, _ => absurd rfl nonempty
  | [e], _, ⟨first, _⟩, same, lacks => by
    obtain ⟨e', bare, reads⟩ := reads_lexemes rest e first same lacks
    exact ⟨[e'], by simp [bareAll, bare], by simpa [heightAll] using .lastArgument reads.alone⟩
  | e :: e' :: args, _, ⟨first, others⟩, same, lacks => by
    obtain ⟨front, behind, rfl, sameFirst, same⟩ := List.map_eq_append_iff.mp same
    obtain ⟨comma, behind, rfl, separator, same⟩ := List.map_eq_cons_iff.mp same
    obtain ⟨value, bareFirst, readsFirst⟩ := reads_lexemes (comma :: (behind ++ rest)) e first
      sameFirst (lacks_of_lexeme (by simp [separator]))
    obtain ⟨args', bareOthers, readsOthers⟩ := reads_argumentLexemes rest (e' :: args) (by simp) others same lacks
    refine ⟨value :: args', by simp only [bareAll, bareFirst, bareOthers], ?_⟩
    simpa [heightAll] using Derives.argument readsFirst.alone separator readsOthers

end

end Expr

theorem Prototype.reads_lexemes {p : Prototype} {tokens : List Token} (rest : List Token)
    (same : tokens.map (·.lexeme) = p.lexemes) :
    ∃ p', p'.bare = p.bare ∧ Signature p' (tokens ++ rest) rest := by
  obtain ⟨token, behind, rfl, word, same⟩ := List.map_eq_cons_iff.mp same
  obtain ⟨left, behind, rfl, opening, same⟩ := List.map_eq_cons_iff.mp same
  obtain ⟨params, last, rfl, sameParams, same⟩ := List.map_eq_append_iff.mp same
  obtain ⟨right, rfl, closing⟩ := List.map_eq_singleton_iff.mp same
  have named : ∀ param ∈ params, isIdentifier param = true := by
    intro param member
    have lexeme : param.lexeme ∈ p.params.map Lexeme.identifier := sameParams ▸ List.mem_map_of_mem member
    obtain ⟨name, -, same⟩ := List.mem_map.mp lexeme
    simp [isIdentifier, ← same]
  have texts : params.map (·.lexeme.text) = p.params := by
    have texts := congrArg (List.map Lexeme.text) sameParams
    simpa [Function.comp_def, Lexeme.text] using texts
  refine ⟨⟨p.name, p.params, some token.location⟩, rfl, ?_⟩
  have signature : Signature _ _ rest := .intro word opening named closing
  simpa [texts] using signature

theorem Entity.reads_lexemes {entity : Entity} {tokens : List Token} (rest : List Token)
    (h : entity.Within (canonical table)) (same : tokens.map (·.lexeme) = entity.lexemes)
    (lacks : Lacks '(' rest) :
    ∃ entity', entity'.bare = entity.bare ∧
      ReadsEntity table entity' entity.height (tokens ++ rest) rest := by
  cases entity with
  | declaration p =>
    obtain ⟨token, behind, rfl, keyword, same⟩ := List.map_eq_cons_iff.mp same
    obtain ⟨p', bare, signature⟩ := Prototype.reads_lexemes rest same
    exact ⟨.declaration p', by simp [Entity.bare, bare], .declaration keyword signature⟩
  | function f =>
    by_cases anonymous : f.isAnonymous = true
    · simp only [Entity.lexemes, anonymous, if_true] at same
      obtain ⟨e', bare, reads⟩ := Expr.reads_lexemes rest f.body h.2 same lacks
      refine ⟨.function (.anonymous e'), ?_, .expression reads.alone⟩
      have name : f.proto.name = "" := by
        simpa [Function.isAnonymous, Prototype.isAnonymous] using anonymous
      have params : f.proto.params = [] := by simpa [anonymous] using h.1
      simp [Entity.bare, Function.bare, Function.anonymous, Prototype.bare, bare, name, params]
    · simp only [Entity.lexemes, anonymous] at same
      obtain ⟨token, behind, rfl, keyword, same⟩ := List.map_eq_cons_iff.mp same
      obtain ⟨front, behind, rfl, sameProto, same⟩ := List.map_eq_append_iff.mp same
      obtain ⟨p', bareProto, signature⟩ := Prototype.reads_lexemes (behind ++ rest) sameProto
      obtain ⟨e', bareBody, reads⟩ := Expr.reads_lexemes rest f.body h.2 same lacks
      refine ⟨.function ⟨p', e', some token.location⟩, ?_, ?_⟩
      · simp [Entity.bare, Function.bare, bareProto, bareBody]
      · simpa [Entity.height] using DerivesEntity.definition keyword signature reads.alone

namespace Parser

variable {p : Parser} {entities : List Entity}

/-- The outcomes of attempts to read entities, each with a semicolon behind it. -/
def accepting (entities : List Entity) : List Outcome :=
  entities.flatMap fun entity => [.accepted entity, .separator]

theorem exists_first_entity {entity : Entity} (within : entity.Within (canonical p.table))
    (same : p.ahead.map (·.lexeme) = programLexemes (entity :: entities)) :
    ∃ entity' token behind, entity'.bare = entity.bare ∧ token.lexeme = .character ';' ∧
      ReadsEntity p.table entity' entity.height p.ahead (token :: behind) ∧
      behind.map (·.lexeme) = programLexemes entities := by
  rw [programLexemes, List.flatMap_cons, List.append_assoc] at same
  obtain ⟨front, behind, ahead, sameFirst, same⟩ := List.map_eq_append_iff.mp same
  obtain ⟨token, behind, rfl, semicolon, same⟩ := List.map_eq_cons_iff.mp same
  obtain ⟨entity', bare, reads⟩ := entity.reads_lexemes (token :: behind) within sameFirst
    (lacks_of_lexeme (by simp [semicolon]))
  exact ⟨entity', token, behind, bare, semicolon, ahead ▸ reads, same⟩

theorem outcomes_of_first_entity {entity : Entity} {depth : Nat} {token : Token} {behind : List Token}
    (reads : ReadsEntity p.table entity depth p.ahead (token :: behind))
    (semicolon : token.lexeme = .character ';') (shallow : depth ≤ p.levels) :
    p.outcomes = .accepted entity :: .separator ::
      ({ p.look with ahead := behind } : Parser).outcomes := by
  rw [outcomes_of_entity reads shallow
      (not_joins_of_lexeme (semicolon ▸ OperatorTable.precedence_punctuation rfl)),
    outcomes_separator (nextEntity_separator rfl semicolon)]
  rfl

/-- Tokens that say the canonical text of a program are read as the same entities. -/
theorem outcomes_of_lexemes (h : ∀ entity ∈ entities, entity.Within (canonical p.table))
    (shallow : ∀ entity ∈ entities, entity.height ≤ p.levels)
    (same : p.ahead.map (·.lexeme) = programLexemes entities) :
    ∃ read, read.map Entity.bare = entities.map Entity.bare ∧
      p.outcomes = accepting read ++ [.finished] := by
  induction entities generalizing p with
  | nil => exact ⟨[], rfl, outcomes_finished (List.map_eq_nil_iff.mp same)⟩
  | cons entity entities ih =>
    obtain ⟨within, others⟩ := List.forall_mem_cons.mp h
    obtain ⟨first, rest⟩ := List.forall_mem_cons.mp shallow
    obtain ⟨entity', token, behind, bare, semicolon, reads, same⟩ := exists_first_entity within same
    obtain ⟨read, bares, outcomes⟩ := ih (p := { p.look with ahead := behind }) others rest same
    refine ⟨entity' :: read, by simp [bare, bares], ?_⟩
    rw [outcomes_of_first_entity reads semicolon first, outcomes]
    rfl

theorem refused_of_lexemes (h : ∀ entity ∈ entities, entity.Within (canonical p.table))
    (deep : ∃ entity ∈ entities, p.levels < entity.height)
    (same : p.ahead.map (·.lexeme) = programLexemes entities) :
    ∃ diagnostic, .refused diagnostic ∈ p.outcomes := by
  induction entities generalizing p with
  | nil => simp at deep
  | cons entity entities ih =>
    obtain ⟨within, others⟩ := List.forall_mem_cons.mp h
    obtain ⟨entity', token, behind, -, semicolon, reads, same⟩ := exists_first_entity within same
    by_cases first : entity.height ≤ p.levels
    · obtain ⟨later, member, beyond⟩ := deep
      have inside : later ∈ entities := by
        rcases List.mem_cons.mp member with rfl | inside
        · exact absurd first (Nat.not_le_of_lt beyond)
        · exact inside
      obtain ⟨diagnostic, refused⟩ :=
        ih (p := { p.look with ahead := behind }) others ⟨later, inside, beyond⟩ same
      refine ⟨diagnostic, ?_⟩
      rw [outcomes_of_first_entity reads semicolon first]
      exact List.mem_cons_of_mem _ (List.mem_cons_of_mem _ refused)
    · obtain ⟨stuck, sticks, -⟩ := reads.sticks (Nat.lt_of_not_le first)
      obtain ⟨start, others, front, starts⟩ := reads.head
      have other := (@StartsEntity.no_operator p.table start starts).2
      have refused := nextEntity_refused front other (fails_entity_iff.mpr sticks) rfl
      exact ⟨_, outcomes_refused refused ▸ List.mem_singleton_self _⟩

end Parser
end Kaleidoscope
