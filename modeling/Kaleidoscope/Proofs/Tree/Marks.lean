import Kaleidoscope.Proofs.Tree.Provenance
import Kaleidoscope.Tree.Walk

/-! The marks of a tree: what each node shows of one token, and where. In reading order, an operator between its
operands and a name before its arguments, the marks of an expression are those of the tokens that it was read from,
each of which makes one node unless it is punctuation. -/
namespace Kaleidoscope

/-- What a node shows of the token that it is located at. -/
inductive Sign where
  | keyword
  | name (text : String)
  | value (x : Double)
  | operator (text : String)
  deriving DecidableEq

abbrev Mark := Sign × Option Location

def Sign.Within (v : Vocabulary) : Sign → Prop
  | keyword => True
  | name text => v.name text
  | value x => v.literal x
  | operator text => v.operator text

/-- The sign of a token that makes a node of its own. -/
def Lexeme.sign? : Lexeme → Option Sign
  | .defKeyword => some .keyword
  | .identifier name => some (.name name)
  | .number x => some (.value x)
  | .character c => if isPunctuation c then none else some (.operator c.toString)
  | .externKeyword | .endOfInput => none

def Token.mark? (token : Token) : Option Mark := token.lexeme.sign?.map (·, some token.location)

namespace Expr

mutual

/-- The marks of the nodes in the order in which they are read. -/
def marks : Expr → List Mark
  | .number x at? => [(.value x, at?)]
  | .var name at? => [(.name name, at?)]
  | .binary op lhs rhs at? => lhs.marks ++ (.operator op, at?) :: rhs.marks
  | .call callee args at? => (.name callee, at?) :: marksAll args

def marksAll : List Expr → List Mark
  | [] => []
  | e :: rest => e.marks ++ marksAll rest

end

mutual

theorem calls_sublist_marks : (e : Expr) →
    (e.calls.map fun site => ((.name site.callee, site.at?) : Mark)).Sublist e.marks
  | .number .. | .var .. => List.nil_sublist _
  | .binary op lhs rhs at? => by
    rw [calls, List.map_append, marks]
    exact (calls_sublist_marks lhs).append ((calls_sublist_marks rhs).cons _)
  | .call callee args at? => by
    rw [calls, List.map_cons, marks]
    exact (callsAll_sublist_marksAll args).cons_cons _

theorem callsAll_sublist_marksAll : (args : List Expr) →
    ((callsAll args).map fun site => ((.name site.callee, site.at?) : Mark)).Sublist (marksAll args)
  | [] => List.nil_sublist _
  | e :: rest => by
    rw [callsAll, List.map_append, marksAll]
    exact (calls_sublist_marks e).append (callsAll_sublist_marksAll rest)

end

mutual

theorem within_iff_forall_marks (v : Vocabulary) : (e : Expr) → (e.Within v ↔ ∀ mark ∈ e.marks, mark.1.Within v)
  | .number .. | .var .. => by simp [Within, marks, Sign.Within]
  | .binary op lhs rhs at? => by
    rw [Within, within_iff_forall_marks v lhs, within_iff_forall_marks v rhs, marks, List.forall_mem_append,
      List.forall_mem_cons]
    exact and_left_comm
  | .call callee args at? => by
    rw [Within, withinAll_iff_forall_marks v args, marks, List.forall_mem_cons]
    rfl

theorem withinAll_iff_forall_marks (v : Vocabulary) : (args : List Expr) →
    (WithinAll v args ↔ ∀ mark ∈ marksAll args, mark.1.Within v)
  | [] => by simp [WithinAll, marksAll]
  | e :: rest => by
    rw [WithinAll, within_iff_forall_marks v e, withinAll_iff_forall_marks v rest, marksAll, List.forall_mem_append]

end

end Expr

/-- A definition has the marks of its keyword, of its name and of its body; a bare expression only the last. -/
def Entity.marks : Entity → List Mark
  | .declaration proto => [(.name proto.name, proto.at?)]
  | .function f =>
    if f.isAnonymous then f.body.marks else (.keyword, f.at?) :: (.name f.proto.name, f.proto.at?) :: f.body.marks

theorem Entity.mem_marks_value {entity : Entity} {x : Double} {at? : Option Location} :
    (.value x, at?) ∈ entity.marks ↔ ∃ body ∈ entity.body?, (.value x, at?) ∈ body.marks := by
  cases entity with
  | declaration proto => simp [marks, body?]
  | function f =>
    rw [marks]
    split <;> simp [body?]

namespace Grammar

def linkMarks (links : List Link) : List Mark :=
  links.flatMap fun link => (.operator link.op.lexeme.text, some link.op.location) :: link.operand.marks

theorem marks_of_arranged {e operand : Expr} {links : List Link} (h : Chain.Arranged e operand links) :
    e.marks = operand.marks ++ linkMarks links := by
  induction h with
  | operand => simp [linkMarks]
  | operation _ _ pivot left right =>
    rw [pivot.split, Chain.join, Expr.marks, left, right]
    simp [linkMarks]

def Phrase.marks : Phrase → List Mark
  | primary e | expression e => e.marks
  | links found => linkMarks found
  | arguments args => Expr.marksAll args

variable {table : OperatorTable} {alone : List Token → Prop} {tokens rest : List Token} {depth : Nat}

section Tokens

variable {token : Token}

theorem mark?_number {x : Double} (lexeme : token.lexeme = .number x) :
    token.mark? = some (.value x, some token.location) := by
  simp [Token.mark?, lexeme, Lexeme.sign?]

theorem mark?_name {name : String} (lexeme : token.lexeme = .identifier name) :
    token.mark? = some (.name name, some token.location) := by
  simp [Token.mark?, lexeme, Lexeme.sign?]

theorem mark?_keyword (lexeme : token.lexeme = .defKeyword) :
    token.mark? = some (.keyword, some token.location) := by
  simp [Token.mark?, lexeme, Lexeme.sign?]

theorem mark?_punctuation {c : Char} (lexeme : token.lexeme = .character c) (punctuation : isPunctuation c = true) :
    token.mark? = none := by
  simp [Token.mark?, lexeme, Lexeme.sign?, punctuation]

theorem mark?_operator (operator : 0 < table.precedence token.lexeme) :
    token.mark? = some (.operator token.lexeme.text, some token.location) := by
  obtain ⟨c, lexeme, allowed⟩ := OperatorTable.isOperatorCharacter_of_precedence operator
  have other : ¬ isPunctuation c = true := by
    intro punctuation
    simp [isOperatorCharacter, punctuation] at allowed
  simp [Token.mark?, lexeme, Lexeme.sign?, other, Lexeme.text]

end Tokens

/-- The marks of a phrase are those of its tokens. -/
theorem Derives.marks {phrase : Phrase} (h : Derives table alone phrase depth tokens rest) :
    ∃ used, tokens = used ++ rest ∧ phrase.marks = used.filterMap Token.mark? := by
  have opens {token : Token} (lexeme : token.lexeme = .character '(') := mark?_punctuation lexeme rfl
  have closes {token : Token} (lexeme : token.lexeme = .character ')') := mark?_punctuation lexeme rfl
  have separates {token : Token} (lexeme : token.lexeme = .character ',') := mark?_punctuation lexeme rfl
  induction h with
  | number literal =>
    exact ⟨[_], rfl, by rw [List.filterMap_cons_some (mark?_number literal)]; rfl⟩
  | name word _ =>
    exact ⟨[_], rfl, by rw [List.filterMap_cons_some (mark?_name word)]; rfl⟩
  | emptyCall word opening closing =>
    refine ⟨[_, _, _], rfl, ?_⟩
    rw [List.filterMap_cons_some (mark?_name word), List.filterMap_cons_none (opens opening),
      List.filterMap_cons_none (closes closing)]
    rfl
  | @call _ _ _ right rest _ token left word opening _ closing ih =>
    obtain ⟨used, rfl, same⟩ := ih
    refine ⟨token :: left :: (used ++ [right]), by simp, ?_⟩
    rw [List.filterMap_cons_some (mark?_name word), List.filterMap_cons_none (opens opening), List.filterMap_append,
      ← same, List.filterMap_cons_none (closes closing), List.filterMap_nil, List.append_nil]
    rfl
  | @group _ _ _ right rest left opening _ closing ih =>
    obtain ⟨used, rfl, same⟩ := ih
    refine ⟨left :: (used ++ [right]), by simp, ?_⟩
    rw [List.filterMap_cons_none (opens opening), List.filterMap_append, ← same,
      List.filterMap_cons_none (closes closing), List.filterMap_nil, List.append_nil]
    rfl
  | noLinks => exact ⟨[], rfl, rfl⟩
  | @link _ _ _ _ _ _ _ op operator _ _ first later =>
    obtain ⟨used, rfl, same⟩ := first
    obtain ⟨used', rfl, same'⟩ := later
    refine ⟨op :: (used ++ used'), by simp, ?_⟩
    rw [List.filterMap_cons_some (mark?_operator operator), List.filterMap_append, ← same, ← same']
    rfl
  | expression _ _ first later =>
    obtain ⟨used, rfl, same⟩ := first
    obtain ⟨used', rfl, same'⟩ := later
    refine ⟨used ++ used', by simp, ?_⟩
    rw [List.filterMap_append, ← same, ← same']
    exact marks_of_arranged (Chain.arranged_reference _ _)
  | lastArgument _ ih =>
    obtain ⟨used, rfl, same⟩ := ih
    exact ⟨used, rfl, (List.append_nil _).trans same⟩
  | @argument _ _ _ comma _ _ _ _ _ separator _ first later =>
    obtain ⟨used, rfl, same⟩ := first
    obtain ⟨used', rfl, same'⟩ := later
    refine ⟨used ++ comma :: used', by simp, ?_⟩
    rw [List.filterMap_append, List.filterMap_cons_none (separates separator), ← same, ← same']
    rfl

theorem Signature.marks {proto : Prototype} (h : Signature proto tokens rest) :
    ∃ token others, tokens = token :: (others ++ rest) ∧ token.mark? = some (.name proto.name, proto.at?) := by
  obtain @⟨params, _, token, left, right, rest, word, opening, named, closing⟩ := h
  exact ⟨token, left :: (params ++ [right]), by simp, mark?_name word⟩

/-- The marks of an entity are those of its first two tokens, a keyword and a name, and those of the tokens of its body,
with nothing in front of a bare expression and nothing behind the head of a declaration. -/
theorem DerivesEntity.marks {entity : Entity} (h : DerivesEntity table alone entity depth tokens rest)
    (scanned : ∀ token ∈ tokens, token.lexeme.Scanned) :
    ∃ head own, tokens = head ++ own ++ rest ∧ entity.marks = (head.take 2 ++ own).filterMap Token.mark? ∧
      (entity.kind = .expression → head = []) ∧ (entity.kind = .declaration → own = []) ∧
      ∀ f, entity = .function f → f.body.marks = own.filterMap Token.mark? := by
  cases h with
  | @definition proto _ _ e _ _ keyword lexeme signature body =>
    have named : Function.isAnonymous ⟨proto, e, some keyword.location⟩ = false :=
      (signature.within table (List.forall_mem_cons.mp scanned).2).1.named
    obtain ⟨name, others, rfl, mark⟩ := signature.marks
    obtain ⟨own, rfl, same⟩ := body.marks
    refine ⟨keyword :: name :: others, own, by simp, ?_, ?_, ?_, ?_⟩
    · rw [Entity.marks, named, List.filterMap_append, ← same]
      simp [mark?_keyword lexeme, mark, Phrase.marks]
    · intro kind
      simp [Entity.kind, named] at kind
    · intro kind
      simp [Entity.kind, named] at kind
    · rintro f ⟨⟩
      exact same
  | @declaration proto _ _ keyword lexeme signature =>
    obtain ⟨name, others, rfl, mark⟩ := signature.marks
    have silent : keyword.mark? = none := by simp [Token.mark?, lexeme, Lexeme.sign?]
    refine ⟨keyword :: name :: others, [], by simp, ?_, ?_, fun _ => rfl, ?_⟩
    · simp [Entity.marks, silent, mark]
    · intro kind
      cases kind
    · intro f same
      cases same
  | @expression e _ _ _ body =>
    obtain ⟨own, rfl, same⟩ := body.marks
    refine ⟨[], own, rfl, same, fun _ => rfl, ?_, ?_⟩
    · intro kind
      cases kind
    · rintro f ⟨⟩
      exact same

end Grammar
end Kaleidoscope
