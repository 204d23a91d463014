import Kaleidoscope.Proofs.Operator.Table
import Kaleidoscope.Proofs.Token.Decomposition
import Kaleidoscope.Proofs.Tree.Vocabulary

/-! The canonical text of an expression falls into the lexemes of its fully parenthesised form, whatever
stands behind it, as long as that cannot lengthen a word or a numeral. -/
namespace Kaleidoscope

/-- No word and no numeral goes on here. -/
def Apart (text : List Char) : Prop := Stops (fun c => c.isAlphanum || c == '.') text

/-- With nothing behind it that could lengthen its last token, the text falls into these lexemes, none of
them misspelt. -/
def FallsInto (text : List Char) (lexemes : List Lexeme) : Prop :=
  ∀ rest behind, Apart rest → Decomposes rest behind →
    Decomposes (text ++ rest) (lexemes.map (·, none) ++ behind)

theorem apart_cons {c : Char} {text : List Char} (h : (c.isAlphanum || c == '.') = false) :
    Apart (c :: text) := by
  simpa [Apart, Stops] using h

theorem Apart.stops {text : List Char} (apart : Apart text) :
    Stops Char.isAlphanum text ∧ Stops isNumeral text := by
  constructor
  · intro c first
    have := apart c first
    simp_all
  · intro c first
    have := apart c first
    simp_all [isNumeral, Char.isAlphanum]

namespace FallsInto

variable {text behind : List Char} {lexemes more : List Lexeme} {c : Char}

theorem nil : FallsInto [] [] := fun _ _ _ decomposes => decomposes

theorem layout (blank : isLayout c = true) (h : FallsInto text lexemes) : FallsInto (c :: text) lexemes :=
  fun rest behind apart decomposes => .layout blank (h rest behind apart decomposes)

theorem lone (alone : isLoneCharacter c = true) (h : FallsInto text lexemes) :
    FallsInto (c :: text) (.character c :: lexemes) :=
  fun rest behind apart decomposes => .lone alone (h rest behind apart decomposes)

theorem append (h : FallsInto text lexemes) (k : FallsInto behind more)
    (apart : ∀ rest, Apart rest → Apart (behind ++ rest)) :
    FallsInto (text ++ behind) (lexemes ++ more) := by
  intro rest left ends decomposes
  rw [List.append_assoc, List.map_append, List.append_assoc]
  exact h _ _ (apart rest ends) (k rest left ends decomposes)

theorem append_cons (h : FallsInto text lexemes) (k : FallsInto (c :: behind) more)
    (apart : (c.isAlphanum || c == '.') = false) : FallsInto (text ++ c :: behind) (lexemes ++ more) :=
  h.append k fun _ _ => apart_cons apart

theorem word {word : String} (h : IsWord word) : FallsInto word.toList [.ofWord word] := by
  obtain ⟨c, body, chars, alpha, inside⟩ := h
  intro rest behind apart decomposes
  have first := Decomposes.word alpha inside apart.stops.1 decomposes
  rwa [← chars, String.ofList_toList, ← List.cons_append, ← chars] at first

theorem name {name : String} (h : IsName name) : FallsInto name.toList [.identifier name] := by
  have word := FallsInto.word h.word
  rwa [Lexeme.ofWord, if_neg h.not_def, if_neg h.not_extern] at word

theorem numeral {x : Double} (spells : Literal.Spells text x) : FallsInto text [.number x] := by
  obtain ⟨c, body, rfl, digit⟩ := spells.head_isDigit
  have inside : ∀ d ∈ c :: body, isNumeral d = true := by
    intro d member
    simpa [isNumeral] using spells.digit_or_point d member
  obtain ⟨value, exact⟩ := spells.value_eq
  intro rest behind apart decomposes
  have numeral := Decomposes.numeral (inside c List.mem_cons_self)
    (fun d member => inside d (List.mem_cons_of_mem _ member)) apart.stops.2 decomposes
  simpa [numeralToken, value, exact] using numeral

end FallsInto

/-- What occurs in the expressions that have a canonical text to be read with the table. -/
def canonical (table : OperatorTable) : Vocabulary where
  literal x := x.isNegative = false ∧ x.isFinite = true
  name := IsName
  operator := table.Binds

namespace Expr

mutual

def lexemes : Expr → List Lexeme
  | .number value _ => [.number value]
  | .var name _ => [.identifier name]
  | .binary op lhs rhs _ =>
    .character '(' :: (lhs.lexemes ++ (op.toList.map .character ++ (rhs.lexemes ++ [.character ')'])))
  | .call callee args _ =>
    .identifier callee :: .character '(' :: (argumentLexemes args ++ [.character ')'])

def argumentLexemes : List Expr → List Lexeme
  | [] => []
  | [e] => e.lexemes
  | e :: rest => e.lexemes ++ .character ',' :: argumentLexemes rest

end

theorem fallsInto_signature {name inner text : String} {lexemes : List Lexeme} (word : IsName name)
    (h : FallsInto inner.toList lexemes) (same : text = name ++ "(" ++ inner ++ ")") :
    FallsInto text.toList (.identifier name :: .character '(' :: (lexemes ++ [.character ')'])) := by
  have closing : FallsInto [')'] [.character ')'] := .lone rfl .nil
  have inside := FallsInto.lone (c := '(') rfl (h.append_cons closing rfl)
  simpa [same] using (FallsInto.name word).append_cons inside rfl

mutual

theorem fallsInto_spelling {table : OperatorTable} {text : String} : (e : Expr) →
    e.Within (canonical table) → e.spelling = .ok text → FallsInto text.toList e.lexemes
  | .number value _, _, spelt => by
    simp only [spelling, Double.spelling] at spelt
    split at spelt
    · next found =>
      cases spelt
      exact .numeral (Double.spells_spelling found)
    · cases spelt
  | .var name _, word, spelt => by
    cases spelt
    exact .name word
  | .binary op lhs rhs _, ⟨⟨c, single, positive⟩, left, right⟩, spelt => by
    obtain ⟨before, after, speltLeft, speltRight, rfl⟩ := spelling_binary_iff.mp spelt
    have alone : isLoneCharacter c = true := by
      obtain ⟨_, same, operator⟩ := OperatorTable.isOperatorCharacter_of_precedence positive
      cases same
      exact (Bool.and_eq_true_iff.mp operator).1
    have closing : FallsInto [')'] [.character ')'] := .lone rfl .nil
    have last := (fallsInto_spelling rhs right speltRight).append_cons closing rfl
    have middle := (FallsInto.lone alone (last.layout (c := ' ') rfl)).layout (c := ' ') rfl
    have all := FallsInto.lone (c := '(') rfl ((fallsInto_spelling lhs left speltLeft).append_cons middle rfl)
    simpa [lexemes, single] using all
  | .call callee args _, ⟨word, inner⟩, spelt => by
    obtain ⟨texts, speltAll, rfl⟩ := spelling_call_iff.mp spelt
    exact fallsInto_signature word (fallsInto_spellingAll args inner speltAll) rfl

theorem fallsInto_spellingAll {table : OperatorTable} {texts : List String} : (args : List Expr) →
    WithinAll (canonical table) args → spellingAll args = .ok texts →
      FallsInto (", ".intercalate texts).toList (argumentLexemes args)
  | [], _, spelt => by
    cases spelt
    exact .nil
  | [e], ⟨first, _⟩, spelt => by
    obtain ⟨text, more, speltFirst, speltMore, rfl⟩ := spellingAll_cons_iff.mp spelt
    cases speltMore
    simpa [argumentLexemes] using fallsInto_spelling e first speltFirst
  | e :: e' :: rest, ⟨first, others⟩, spelt => by
    obtain ⟨text, more, speltFirst, speltMore, rfl⟩ := spellingAll_cons_iff.mp spelt
    have behind := FallsInto.lone (c := ',') rfl
      ((fallsInto_spellingAll (e' :: rest) others speltMore).layout (c := ' ') rfl)
    have all := (fallsInto_spelling e first speltFirst).append_cons behind rfl
    obtain ⟨text', more', -, -, rfl⟩ := spellingAll_cons_iff.mp speltMore
    simpa [argumentLexemes, String.intercalate_cons_cons] using all

end

end Expr

theorem fallsInto_params (params : List String) (named : ∀ param ∈ params, IsName param) :
    FallsInto (" ".intercalate params).toList (params.map .identifier) := by
  induction params with
  | nil => exact .nil
  | cons param params ih =>
    obtain ⟨word, others⟩ := List.forall_mem_cons.mp named
    cases params with
    | nil => simpa using FallsInto.name word
    | cons next params =>
      have behind := (ih others).layout (c := ' ') rfl
      have all := (FallsInto.name word).append_cons behind rfl
      simpa [String.intercalate_cons_cons] using all

namespace Prototype

def lexemes (p : Prototype) : List Lexeme :=
  .identifier p.name :: .character '(' :: (p.params.map .identifier ++ [.character ')'])

theorem fallsInto_signature {v : Vocabulary} {p : Prototype} (h : p.Within v)
    (name : ∀ x, v.name x → IsName x) : FallsInto p.signature.toList p.lexemes :=
  Expr.fallsInto_signature (name _ h.1)
    (fallsInto_params p.params fun param member => name _ (h.2 param member)) rfl

end Prototype

namespace Entity

def lexemes : Entity → List Lexeme
  | .declaration p => .externKeyword :: p.lexemes
  | .function f =>
    if f.isAnonymous then f.body.lexemes else .defKeyword :: (f.proto.lexemes ++ f.body.lexemes)

theorem fallsInto_spelling {table : OperatorTable} {text : String} {entity : Entity}
    (h : entity.Within (canonical table)) (spelt : entity.spelling = .ok text) :
    FallsInto text.toList entity.lexemes := by
  cases entity with
  | declaration p =>
    cases spelt
    have signature := (Prototype.fallsInto_signature h fun _ name => name).layout (c := ' ') rfl
    have all := (FallsInto.word isWord_extern).append_cons signature rfl
    simpa [lexemes, Lexeme.ofWord] using all
  | function f =>
    obtain ⟨body, speltBody, rfl⟩ := spelling_function_iff.mp spelt
    have inner := Expr.fallsInto_spelling f.body h.2 speltBody
    by_cases anonymous : f.isAnonymous = true
    · simpa [lexemes, anonymous] using inner
    · have proto : f.proto.Within (canonical table) := by simpa [anonymous] using h.1
      have inner := (Prototype.fallsInto_signature proto fun _ name => name).append_cons
        (inner.layout (c := ' ') rfl) rfl
      have all := (FallsInto.word isWord_def).append_cons (inner.layout (c := ' ') rfl) rfl
      simpa [lexemes, anonymous, Lexeme.ofWord] using all

end Entity

def programLexemes (entities : List Entity) : List Lexeme :=
  entities.flatMap fun entity => entity.lexemes ++ [.character ';']

theorem fallsInto_programSpelling {table : OperatorTable} {text : String} {entities : List Entity}
    (h : ∀ entity ∈ entities, entity.Within (canonical table)) (spelt : programSpelling entities = .ok text) :
    FallsInto text.toList (programLexemes entities) := by
  induction entities generalizing text with
  | nil =>
    cases spelt
    exact .nil
  | cons entity entities ih =>
    obtain ⟨first, more, speltFirst, speltMore, rfl⟩ := programSpelling_cons_iff.mp spelt
    obtain ⟨within, others⟩ := List.forall_mem_cons.mp h
    have behind := FallsInto.lone (c := ';') rfl ((ih others speltMore).layout (c := '\n') rfl)
    have all := (Entity.fallsInto_spelling within speltFirst).append_cons behind rfl
    simpa [programLexemes] using all

theorem FallsInto.tokens {text : String} {lexemes : List Lexeme} (h : FallsInto text.toList lexemes)
    (file : String) :
    (tokenize file text).tokens.map (·.lexeme) = lexemes ∧
      ∀ token ∈ (tokenize file text).tokens, token.misspelling = none := by
  have decomposes : (tokenize file text).tokens.map (fun token => (token.lexeme, token.misspelling)) =
      lexemes.map (·, none) :=
    tokenize_eq_iff.mpr (by simpa using h [] [] (by simp [Apart, Stops]) .done)
  constructor
  · have same := congrArg (List.map Prod.fst) decomposes
    simpa [Function.comp_def] using same
  · intro token member
    have pair : (token.lexeme, token.misspelling) ∈ lexemes.map (·, none) := by
      rw [← decomposes]
      exact List.mem_map_of_mem member
    obtain ⟨_, -, same⟩ := List.mem_map.mp pair
    exact (Prod.ext_iff.mp same).2.symm

end Kaleidoscope
