import Kaleidoscope.Proofs.Grammar.SourceOrder
import Kaleidoscope.Proofs.Token.Denotation
import Kaleidoscope.Proofs.Token.Numeral
import Kaleidoscope.Proofs.Tree.Rereading

/-! What the entities that are accepted are like. Each is of the kind that its first token says, all that occurs in it
is in the vocabulary of its table, and only a literal that is too large stands in the way of its canonical text. -/
namespace Kaleidoscope

def Lexeme.entityKind : Lexeme → EntityKind
  | .defKeyword => .definition
  | .externKeyword => .declaration
  | _ => .expression

/-- Definitions and declarations have a name, and nothing but a body is left of a bare expression. -/
structure Entity.WellFormed (table : OperatorTable) (entity : Entity) : Prop where
  definition : entity.kind = .definition → ∃ f, entity = .function f ∧ f.proto.name ≠ ""
  declaration : entity.kind = .declaration → ∃ proto, entity = .declaration proto ∧ proto.name ≠ ""
  expression : entity.kind = .expression → ∃ body, entity = .function (.anonymous body)
  within : entity.Within (readable table)

namespace Literal

/-- What is used of the run denotes a number that is half a spacing past the greatest double, or more. -/
def Overflows (run : List Char) : Prop := ∃ used q, IsUsed run used q ∧ (2 : ℚ) ^ 1024 - 2 ^ 970 ≤ q

theorem overflows_iff {run : List Char} (numerals : ∀ c ∈ run, isNumeral c = true) :
    Overflows run ↔ (ofText run).value.isFinite = false := by
  rw [← Bool.not_eq_true]
  constructor
  · rintro ⟨used, q, isUsed, large⟩ finite
    exact absurd ((isUsed.isFinite_value_iff numerals).mp finite) (not_lt.mpr large)
  · intro infinite
    obtain ⟨used, ignored, q, rfl, denotes, ends⟩ := exists_denotes numerals
    have isUsed := denotes.isUsed ends
    exact ⟨used, q, isUsed, not_lt.mp (mt (isUsed.isFinite_value_iff numerals).mpr infinite)⟩

end Literal

def Entity.HasLiteral (file text : String) (entity : Entity) (run : List Char) : Prop :=
  ∃ x, ∃ token ∈ (tokenize file text).tokens, (.value x, some token.location) ∈ entity.marks ∧
    (∃ before behind, token.StandsIn file text.toList before run behind) ∧ (Sign.value x).ShownBy run

structure Origin where
  table : OperatorTable
  nesting : Int
  file : String
  text : String

namespace Origin

def after (origin : Origin) (calls : List Parser.Call) : Parser :=
  calls.foldl Parser.after (.ofText origin.table origin.nesting origin.file origin.text)

/-- The parser accepts the entity after some calls. -/
def Gives (origin : Origin) (entity : Entity) : Prop :=
  ∃ calls q, (origin.after calls).nextEntity = (.accepted entity, q)

end Origin

variable {table : OperatorTable} {alone : List Token → Prop} {tokens rest : List Token} {depth : Nat}
  {entity : Entity} {file text : String}

namespace Grammar.DerivesEntity

theorem wellFormed (h : DerivesEntity table alone entity depth tokens rest)
    (scanned : ∀ token ∈ tokens, token.lexeme.Scanned) : entity.WellFormed table := by
  obtain ⟨within, -⟩ := h.within scanned
  cases entity with
  | declaration proto => exact ⟨nofun, fun _ => ⟨proto, rfl, within.1.ne_empty⟩, nofun, within⟩
  | function f =>
    by_cases anonymous : f.isAnonymous = true
    · have kind : (Entity.function f).kind = .expression := if_pos anonymous
      have same := (h.bare_of_anonymous scanned anonymous).1
      exact ⟨by simp [kind], by simp [kind], fun _ => ⟨f.body, congrArg _ same⟩, within⟩
    · have kind : (Entity.function f).kind = .definition := if_neg anonymous
      have named : f.proto.name ≠ "" := by simpa [Function.isAnonymous, Prototype.isAnonymous] using anonymous
      exact ⟨fun _ => ⟨f, rfl, named⟩, by simp [kind], by simp [kind], within⟩

theorem kind_eq (h : DerivesEntity table alone entity depth tokens rest)
    (scanned : ∀ token ∈ tokens, token.lexeme.Scanned) :
    ∃ token behind, tokens = token :: behind ∧ entity.kind = token.lexeme.entityKind := by
  cases h with
  | @definition proto _ _ e _ _ keyword lexeme signature body =>
    have named : Function.isAnonymous ⟨proto, e, some keyword.location⟩ = false :=
      (signature.within table (List.forall_mem_cons.mp scanned).2).1.named
    exact ⟨keyword, _, rfl, by simp [Entity.kind, named, lexeme, Lexeme.entityKind]⟩
  | declaration lexeme signature =>
    exact ⟨_, _, rfl, by simp [Entity.kind, lexeme, Lexeme.entityKind]⟩
  | @expression e _ _ _ body =>
    obtain ⟨token, behind, rfl, starts⟩ := body.head (by simp)
    have kind : (Entity.function (.anonymous e)).kind = .expression := rfl
    refine ⟨token, behind, rfl, kind.trans ?_⟩
    cases lexeme : token.lexeme <;> simp [Grammar.Starts, lexeme] at starts <;> rfl

end Grammar.DerivesEntity

theorem exists_error_iff {ε α : Type} (result : Except ε α) :
    (∃ fault, result = .error fault) ↔ ¬ ∃ value, result = .ok value := by
  cases result <;> simp

namespace Entity

theorem exists_fault_iff : (∃ fault, entity.spelling = .error fault) ↔
    ∃ x at?, (.value x, at?) ∈ entity.marks ∧ ¬ (x.isNegative = false ∧ x.isFinite = true) := by
  rw [exists_error_iff, exists_spelling_iff]
  simp only [mem_marks_value, Expr.within_iff_forall_marks, not_forall]
  constructor
  · rintro ⟨body, own, ⟨sign, at?⟩, member, unfit⟩
    cases sign with
    | value x => exact ⟨x, at?, ⟨body, own, member⟩, unfit⟩
    | keyword | name | operator => exact absurd trivial unfit
  · rintro ⟨x, at?, ⟨body, own, member⟩, unfit⟩
    exact ⟨body, own, _, member, unfit⟩

theorem LocatedIn.exists_fault_iff (located : entity.LocatedIn file text) :
    (∃ fault, entity.spelling = .error fault) ↔
      ∃ run, entity.HasLiteral file text run ∧ Literal.Overflows run := by
  rw [Entity.exists_fault_iff]
  constructor
  · rintro ⟨x, at?, member, unfit⟩
    obtain ⟨token, inside, rfl, -, ⟨before, run, behind, stands, numerals, rfl⟩, -⟩ := located.shows _ _ member
    refine ⟨run, ⟨_, token, inside, member, ⟨before, behind, stands⟩, numerals, rfl⟩, ?_⟩
    have sign := (Literal.scanned_value (Literal.ofText run)).1
    exact (Literal.overflows_iff numerals).mpr (Bool.eq_false_iff.mpr fun finite => unfit ⟨sign, finite⟩)
  · rintro ⟨run, ⟨_, token, -, member, -, numerals, rfl⟩, overflows⟩
    have infinite := (Literal.overflows_iff numerals).mp overflows
    exact ⟨_, _, member, fun fit => Bool.eq_false_iff.mp infinite fit.2⟩

end Entity

theorem exists_programFault_iff {entities : List Entity} :
    (∃ fault, programSpelling entities = .error fault) ↔
      ∃ entity ∈ entities, ∃ fault, entity.spelling = .error fault := by
  simp only [exists_error_iff, exists_programSpelling_iff, Entity.exists_spelling_iff, not_forall, exists_prop]

namespace Parser

/-- An attempt that is not refused comes to the end of the input, passes a semicolon or accepts an entity. This is of
the kind that its first token says, with a name unless it is a bare expression, and of the vocabulary of the table:
words that are no keywords as names, operators that bind, literals without a sign that are numbers. It has a canonical
text unless one of its literals is spelled by a run that overflows, and so has a program of such entities. -/
theorem accepted_well_formed :
    (∀ (origin : Origin) (calls : List Call),
      match (origin.after calls).nextEntity.1 with
      | .finished => (origin.after calls).ahead = []
      | .separator => ∃ token rest, (origin.after calls).ahead = token :: rest ∧ token.lexeme = .character ';'
      | .accepted entity => entity.WellFormed origin.table ∧
        (∃ token rest, (origin.after calls).ahead = token :: rest ∧ entity.kind = token.lexeme.entityKind) ∧
        ((∃ fault, entity.spelling = .error fault) ↔
          ∃ run, entity.HasLiteral origin.file origin.text run ∧ Literal.Overflows run)
      | .refused _ => True) ∧
    ∀ entities : List (Origin × Entity), (∀ given ∈ entities, given.1.Gives given.2) →
      ((∃ fault, programSpelling (entities.map Prod.snd) = .error fault) ↔
        ∃ given ∈ entities, ∃ run, given.2.HasLiteral given.1.file given.1.text run ∧ Literal.Overflows run) := by
  constructor
  · intro origin calls
    rcases (origin.after calls).nextEntity_cases with ⟨nothing, attempt⟩ | ⟨token, rest, front, semicolon, attempt⟩ |
      ⟨entity, rest, -, attempt⟩ | ⟨_, _, _, _, _, -, -, -, -, attempt⟩
    all_goals rw [attempt]
    · exact nothing
    · exact ⟨token, rest, front, semicolon⟩
    · obtain ⟨scanned, depth, reads⟩ := exists_reads_of_accepted attempt
      exact ⟨reads.wellFormed scanned, reads.kind_eq scanned, (locatedIn_of_accepted attempt).exists_fault_iff⟩
    · trivial
  · intro entities given
    simp only [exists_programFault_iff, List.mem_map]
    constructor
    · rintro ⟨_, ⟨⟨origin, entity⟩, member, rfl⟩, fails⟩
      obtain ⟨calls, q, accepted⟩ := given _ member
      exact ⟨_, member, (locatedIn_of_accepted accepted).exists_fault_iff.mp fails⟩
    · rintro ⟨⟨origin, entity⟩, member, overflows⟩
      obtain ⟨calls, q, accepted⟩ := given _ member
      exact ⟨entity, ⟨_, member, rfl⟩, (locatedIn_of_accepted accepted).exists_fault_iff.mpr overflows⟩

/-- Two to the 1024 is an entity without a canonical text. -/
theorem accepted_well_formed_of_large_number :
    let origin : Origin := ⟨.standard, 8, "large", toString (twoTo 1024)⟩
    let entity : Entity := .function (.anonymous (.number (.nearest (twoTo 1024) 1) (some ⟨"large", 1, 1⟩)))
    origin.Gives entity ∧ (∃ fault, programSpelling [entity] = .error fault) ∧
      ∃ run, entity.HasLiteral origin.file origin.text run ∧ Literal.Overflows run := by
  intro origin entity
  have gives : origin.Gives entity := by
    have ends : Stops isNumeral "".toList := by simp [Stops]
    obtain ⟨behind, tokens, others⟩ := tokenize_of_spells "large" (Literal.spells_natural (twoTo 1024)) ends
    obtain rfl : behind = [] := List.map_eq_nil_iff.mp (others.trans (tokenize_eq_iff.mpr .done))
    rw [String.append_empty] at tokens
    let token := spelledToken "large" (.nearest (twoTo 1024) 1) (toString (twoTo 1024)).toList "".toList
    have literal : token.lexeme = .number (.nearest (twoTo 1024) 1) := rfl
    have ahead : (origin.after []).ahead = [token] := tokens
    have reads : Grammar.ReadsEntity .standard entity 1 (origin.after []).ahead [] := by
      rw [ahead]
      exact .expression (Grammar.Derives.number literal).alone
    exact ⟨[], { (origin.after []).look with ahead := [] }, nextEntity_eq_accepted_iff.mpr
      ⟨⟨by simp [Grammar.EndsEntity, entity], 1, by decide, reads⟩, rfl⟩⟩
  have fails : ∃ fault, programSpelling [entity] = .error fault := ⟨⟨.nearest (twoTo 1024) 1⟩, by decide +kernel⟩
  have overflows := (accepted_well_formed.2 [(origin, entity)] (by simpa using gives)).mp fails
  exact ⟨gives, fails, by simpa using overflows⟩

end Parser
end Kaleidoscope
