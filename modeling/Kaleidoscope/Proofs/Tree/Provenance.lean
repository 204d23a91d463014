import Kaleidoscope.Proofs.Grammar.Acceptance
import Kaleidoscope.Proofs.Tree.Vocabulary

/-! Where the parts of a tree come from. Names, literals and operators of what is read are those of the
tokens, and a text gives no others than a tree with a canonical text has, except that a literal may be too
large to be finite. -/
namespace Kaleidoscope

open Grammar

/-- What occurs in the trees that are read with the table. -/
def readable (table : OperatorTable) : Vocabulary where
  literal x := x.isNegative = false ∧ x.isNaN = false
  name := IsName
  operator := table.Binds

/-- A lexeme that a text can have: names are no keywords, and numbers have no sign. -/
def Lexeme.Scanned : Lexeme → Prop
  | .identifier name => IsName name
  | .number x => x.isNegative = false ∧ x.isNaN = false
  | _ => True

theorem Lexeme.scanned_ofWord {word : String} (h : IsWord word) : (Lexeme.ofWord word).Scanned := by
  unfold Lexeme.ofWord
  split
  · trivial
  · next notDef =>
    split
    · trivial
    · next notExtern => exact ⟨h, notDef, notExtern⟩

theorem Literal.scanned_value (literal : Literal) :
    literal.value.isNegative = false ∧ literal.value.isNaN = false := by
  unfold Literal.value
  split
  · exact ⟨Double.isNegative_nearest _ _, Double.isNaN_nearest _ _⟩
  · exact ⟨by decide, by decide⟩

theorem Decomposes.scanned {text : List Char} {lexemes : List (Lexeme × Option String)}
    (h : Decomposes text lexemes) : ∀ pair ∈ lexemes, pair.1.Scanned := by
  induction h with
  | done => simp
  | layout _ _ ih => exact ih
  | comment _ _ _ ih => exact ih
  | word first inside _ _ ih =>
    exact List.forall_mem_cons.mpr ⟨Lexeme.scanned_ofWord ⟨_, _, String.toList_ofList, first, inside⟩, ih⟩
  | numeral _ _ _ _ ih => exact List.forall_mem_cons.mpr ⟨Literal.scanned_value _, ih⟩
  | lone _ _ ih => exact List.forall_mem_cons.mpr ⟨trivial, ih⟩

theorem scanned_tokenize (file text : String) : ∀ token ∈ (tokenize file text).tokens, token.lexeme.Scanned := by
  have decomposes := tokenize_eq_iff.mp (Eq.refl ((tokenize file text).tokens.map _))
  intro token member
  exact decomposes.scanned _ (List.mem_map_of_mem member)

theorem Chain.Arranged.within {v : Vocabulary} {e operand : Expr} {links : List Link}
    (h : Chain.Arranged e operand links) (first : operand.Within v)
    (others : ∀ link ∈ links, v.operator link.op.lexeme.text ∧ link.operand.Within v) : e.Within v := by
  induction h with
  | operand => exact first
  | operation _ _ pivot left right =>
    obtain rfl := pivot.split
    simp only [List.forall_mem_append, List.forall_mem_cons] at others
    obtain ⟨before, middle, behind⟩ := others
    exact ⟨middle.1, left first before, right middle.2 behind⟩

def Grammar.Phrase.Within (v : Vocabulary) : Phrase → Prop
  | primary e | expression e => e.Within v
  | links found => ∀ link ∈ found, v.operator link.op.lexeme.text ∧ link.operand.Within v
  | arguments args => Expr.WithinAll v args

variable {table : OperatorTable} {alone : List Token → Prop} {tokens rest : List Token} {depth : Nat}

/-- Scanned tokens make readable phrases, and those behind the phrase are scanned as well. -/
theorem Grammar.Derives.within {phrase : Phrase} (h : Derives table alone phrase depth tokens rest)
    (scanned : ∀ token ∈ tokens, token.lexeme.Scanned) :
    phrase.Within (readable table) ∧ ∀ token ∈ rest, token.lexeme.Scanned := by
  induction h with
  | number literal =>
    obtain ⟨first, others⟩ := List.forall_mem_cons.mp scanned
    rw [literal] at first
    exact ⟨first, others⟩
  | name word _ =>
    obtain ⟨first, others⟩ := List.forall_mem_cons.mp scanned
    rw [word] at first
    exact ⟨first, others⟩
  | emptyCall word _ _ =>
    obtain ⟨first, -, -, others⟩ : _ ∧ _ ∧ _ ∧ _ := by simpa only [List.forall_mem_cons] using scanned
    rw [word] at first
    exact ⟨⟨first, trivial⟩, others⟩
  | call word _ _ _ ih =>
    obtain ⟨first, -, others⟩ : _ ∧ _ ∧ _ := by simpa only [List.forall_mem_cons] using scanned
    rw [word] at first
    obtain ⟨inner, others⟩ := ih others
    exact ⟨⟨first, inner⟩, (List.forall_mem_cons.mp others).2⟩
  | group _ _ _ ih =>
    obtain ⟨inner, others⟩ := ih (List.forall_mem_cons.mp scanned).2
    exact ⟨inner, (List.forall_mem_cons.mp others).2⟩
  | noLinks => exact ⟨by simp [Phrase.Within], scanned⟩
  | link operator _ _ operand more =>
    obtain ⟨first, others⟩ := operand (List.forall_mem_cons.mp scanned).2
    obtain ⟨found, others⟩ := more others
    obtain ⟨c, lexeme, -⟩ := OperatorTable.isOperatorCharacter_of_precedence operator
    have binds : table.Binds (Lexeme.text (.character c)) := ⟨c, rfl, lexeme ▸ operator⟩
    exact ⟨List.forall_mem_cons.mpr ⟨⟨lexeme ▸ binds, first⟩, found⟩, others⟩
  | expression _ _ operand more =>
    obtain ⟨first, others⟩ := operand scanned
    obtain ⟨found, others⟩ := more others
    exact ⟨(Chain.arranged_reference _ _).within first found, others⟩
  | lastArgument _ ih =>
    obtain ⟨value, others⟩ := ih scanned
    exact ⟨⟨value, trivial⟩, others⟩
  | argument _ _ _ value more =>
    obtain ⟨first, others⟩ := value scanned
    obtain ⟨args, others⟩ := more (List.forall_mem_cons.mp others).2
    exact ⟨⟨first, args⟩, others⟩

theorem Grammar.Signature.within (table : OperatorTable) {proto : Prototype}
    (h : Signature proto tokens rest) (scanned : ∀ token ∈ tokens, token.lexeme.Scanned) :
    proto.Within (readable table) ∧ ∀ token ∈ rest, token.lexeme.Scanned := by
  cases h with
  | intro word _ named _ =>
    simp only [List.forall_mem_cons, List.forall_mem_append] at scanned
    obtain ⟨name, -, params, -, others⟩ := scanned
    rw [word] at name
    refine ⟨⟨name, ?_⟩, others⟩
    intro param member
    obtain ⟨token, inside, rfl⟩ := List.mem_map.mp member
    have identifier := named token inside
    have lexeme := params token inside
    unfold isIdentifier at identifier
    split at identifier
    · next same =>
      rw [same] at lexeme ⊢
      exact lexeme
    · cases identifier

theorem IsName.ne_empty {name : String} (h : IsName name) : name ≠ "" := by
  rintro rfl
  obtain ⟨_, _, chars, -⟩ := h.word
  simp at chars

theorem Prototype.Within.named {p : Prototype} (h : p.Within (readable table)) : p.isAnonymous = false := by
  simpa [Prototype.isAnonymous] using h.1.ne_empty

theorem Grammar.DerivesEntity.within {entity : Entity} (h : DerivesEntity table alone entity depth tokens rest)
    (scanned : ∀ token ∈ tokens, token.lexeme.Scanned) :
    entity.Within (readable table) ∧ ∀ token ∈ rest, token.lexeme.Scanned := by
  cases h with
  | definition _ signature body =>
    obtain ⟨proto, others⟩ := signature.within table (List.forall_mem_cons.mp scanned).2
    obtain ⟨body, others⟩ := body.within others
    exact ⟨⟨by simpa [Function.isAnonymous, proto.named] using proto, body⟩, others⟩
  | declaration _ signature => exact signature.within table (List.forall_mem_cons.mp scanned).2
  | expression body =>
    obtain ⟨body, others⟩ := body.within scanned
    exact ⟨Entity.within_anonymous.mpr body, others⟩

theorem Grammar.DerivesEntity.bare_of_anonymous {f : Function}
    (h : DerivesEntity table alone (.function f) depth tokens rest) (scanned : ∀ token ∈ tokens, token.lexeme.Scanned)
    (anonymous : f.isAnonymous = true) :
    f = .anonymous f.body ∧ Derives table alone (.expression f.body) depth tokens rest := by
  cases h with
  | definition _ signature _ =>
    have named := (signature.within table (List.forall_mem_cons.mp scanned).2).1.named
    rw [Function.isAnonymous, named] at anonymous
    cases anonymous
  | expression body => exact ⟨rfl, body⟩

theorem Grammar.Program.within {items : List (Option Entity)} (h : Program table alone tokens items)
    (scanned : ∀ token ∈ tokens, token.lexeme.Scanned) :
    ∀ entity ∈ items.filterMap id, entity.Within (readable table) := by
  induction h with
  | empty => simp
  | separator _ _ ih =>
    simpa using ih (List.forall_mem_cons.mp scanned).2
  | entity first _ ih =>
    obtain ⟨within, others⟩ := first.within scanned
    simpa using ⟨within, by simpa using ih others⟩

end Kaleidoscope
