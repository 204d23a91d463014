import Kaleidoscope.Proofs.Grammar.Nesting
import Kaleidoscope.Proofs.Grammar.SourceOrder

/-! Whether a parser has looked at its first token. Most calls look at the current token before anything else, and so
it makes no difference to them. Those that take a token for granted do not: they skip it only if it has been looked
at before. -/
namespace Kaleidoscope

/-- What stands first tells how far one has come, as no two tokens of a text are the same. -/
theorem suffix_unique {tokens rest rest' : List Token} {final : Token}
    (increasing : (tokens ++ [final]).Pairwise fun s t => s.location.Precedes t.location) (behind : rest <:+ tokens)
    (behind' : rest' <:+ tokens) (same : rest.headD final = rest'.headD final) : rest = rest' := by
  have back {rest more : List Token} (behind : rest <:+ tokens) (further : more <:+ rest)
      (same : rest.headD final = more.headD final) : rest = more := by
    obtain ⟨front, rfl⟩ := further
    cases front with
    | nil => rfl
    | cons token front =>
      have ordered := increasing.sublist (behind.sublist.append_right [final])
      have member : more.headD final ∈ front ++ more ++ [final] := by cases more <;> simp
      have before := (List.pairwise_cons.mp ordered).1 _ member
      rw [← same] at before
      exact absurd before (Location.Precedes.irrefl _)
  rcases List.suffix_or_suffix_of_suffix behind behind' with further | further
  · exact (back behind' further same.symm).symm
  · exact back behind further same

namespace Grammar

variable {table : OperatorTable} {levels : Nat} {tokens rest stuck stuck' behind : List Token} {token first : Token}

theorem SignatureSticks.length_le {expected : Expectation} (h : SignatureSticks tokens expected stuck) :
    stuck.length ≤ tokens.length := by
  cases h with
  | name _ => exact Nat.le_refl _
  | opening _ _ => exact Nat.le_succ _
  | closing _ _ _ _ _ =>
    simp
    omega

theorem SignatureSticks.named {expected : Expectation} (h : SignatureSticks tokens expected stuck)
    (later : expected ≠ .functionName) :
    ∃ token behind name, tokens = token :: behind ∧ token.lexeme = .identifier name := by
  cases h with
  | name _ => exact absurd rfl later
  | opening word _ => exact ⟨_, _, _, rfl, word⟩
  | closing word _ _ _ _ => exact ⟨_, _, _, rfl, word⟩

theorem Signature.length_eq {proto : Prototype} (h : Signature proto tokens rest) :
    tokens.length = proto.params.length + rest.length + 3 := by
  cases h
  simp
  omega

/-- A prototype and one that starts a token later do not get stuck at the same place for the same reason. -/
theorem SignatureSticks.not_both {expected : Expectation} (h : SignatureSticks (token :: behind) expected stuck)
    (h' : SignatureSticks behind expected stuck) : False := by
  cases h with
  | name _ =>
    have most := h'.length_le
    simp at most
  | opening _ _ => cases h'
  | closing _ opening _ _ _ =>
    obtain ⟨_, _, _, split, word⟩ := h'.named (by decide)
    cases split
    simp [opening] at word

theorem Starts.opening_of_mark? (starts : Starts token) (unmarked : token.mark? = none) :
    token.lexeme = .character '(' := by
  cases lexeme : token.lexeme with
  | character c => rw [starts.eq_opening lexeme]
  | identifier name => simp [mark?_name lexeme] at unmarked
  | number x => simp [mark?_number lexeme] at unmarked
  | _ => simp [Starts, lexeme] at starts

/-- An expression in front of which a token is left out is another one, unless the token opens a group. -/
theorem opening_of_yields_expression {e : Expr} {right right' : Token}
    (h : (expression table levels (first :: behind)).Yields e (right :: rest))
    (h' : (expression table levels behind).Yields e (right' :: rest)) : first.lexeme = .character '(' := by
  obtain ⟨-, _, -, reads⟩ := yields_expression_iff.mp h
  obtain ⟨-, _, -, reads'⟩ := yields_expression_iff.mp h'
  obtain ⟨used, split, marks⟩ := reads.marks
  obtain ⟨used', rfl, marks'⟩ := reads'.marks
  obtain ⟨_, _, front, starts⟩ := reads.head (by simp)
  cases front
  cases used with
  | nil =>
    have count := congrArg List.length split
    simp at count
    omega
  | cons token used =>
    obtain ⟨rfl, others⟩ := List.cons.inj split
    obtain ⟨rfl, -⟩ := List.append_inj' others rfl
    -- Both expressions show the same marks, so the token left out shows none.
    refine starts.opening_of_mark? ?_
    cases mark : first.mark? with
    | none => rfl
    | some m =>
      have count := congrArg List.length (marks.symm.trans marks')
      rw [List.filterMap_cons_some mark] at count
      simp at count

theorem group_not_both {e : Expr} (h : (group (expression table levels) (first :: behind)).Yields e rest)
    (h' : (group (expression table levels) behind).Yields e rest) : False := by
  obtain ⟨right, outer, -⟩ := yields_group_iff.mp h
  obtain ⟨right', inner, -⟩ := yields_group_iff.mp h'
  have opening := opening_of_yields_expression outer inner
  obtain ⟨value, middle, found, operand, run, -⟩ := yields_chain_iff.mp outer
  cases levels with
  | zero => simp [primary] at operand
  | succ levels =>
    have form : Form (expression table levels) (first :: behind) value middle := yields_primaryForm_iff.mp operand
    -- From the first token on, the group is an operand, behind which a second closing parenthesis would have to stand.
    cases form with
    | group _ reads _ =>
      have deeper := (yields_expression_iff.mp reads).deeper (Nat.le_succ levels)
      obtain ⟨-, same⟩ := (yields_expression_iff.mpr deeper).unique inner
      obtain ⟨-, rfl⟩ := List.cons.inj same
      obtain ⟨_, -, links⟩ := run.derives derives_of_yields_primary
      have most := links.length_le
      simp at most
    | number literal => simp [opening] at literal
    | name word _ => simp [opening] at word
    | emptyCall word _ _ => simp [opening] at word
    | call word _ _ _ => simp [opening] at word

end Grammar

theorem Expectation.problem_injective (found : String) (limit : Int) :
    Function.Injective (Expectation.problem found limit) := by
  intro expected other same
  cases expected <;> cases other <;> simp [Expectation.problem] at same ⊢

namespace Parser

open Grammar

variable {p q : Parser}

inductive Answer where
  | token (current : Token)
  | expression (result : Except Diagnostic Expr)
  | prototype (result : Except Diagnostic Prototype)
  | function (result : Except Diagnostic Function)
  | outcome (outcome : Outcome)

def answer (p : Parser) : Call → Answer
  | .advance => .token p.advance.current
  | .expression => .expression p.expression.1
  | .primary => .expression p.primary.1
  | .primaryForm => .expression p.primaryForm.1
  | .continuation least operand => .expression (p.continuation least operand).1
  | .group => .expression p.group.1
  | .prototype => .prototype p.prototype.1
  | .definition => .function p.definition.1
  | .declaration => .prototype p.declaration.1
  | .bareExpression => .function p.bareExpression.1
  | .nextEntity => .outcome p.nextEntity.1

/-- The call has the same answer and leaves the same token current if the parser has looked at its token before. -/
def IgnoresPriming (p : Parser) (call : Call) : Prop :=
  p.answer call = p.look.answer call ∧ (p.after call).current = (p.look.after call).current

/-- Calls that look at the current token first do not care whether that has been done before. -/
theorem ignoresPriming_of_ne (p : Parser) {call : Call} (advance : call ≠ .advance) (group : call ≠ .group)
    (declaration : call ≠ .declaration) : p.IgnoresPriming call := by
  cases call with
  | advance | group | declaration => contradiction
  | _ => exact ⟨rfl, rfl⟩

theorem same_reading {α : Type} {m n : Nat} {r : Reading α m} {r' : Reading α n} (elsewhere : p.Elsewhere q)
    (increasing : p.sequence.all.Pairwise fun s t => s.location.Precedes t.location)
    (inside : r.rest <:+ p.sequence.tokens) (inside' : r'.rest <:+ p.sequence.tokens)
    (answer : (p.settle r).1 = (q.settle r').1) (current : (p.settle r).2.current = (q.settle r').2.current) :
    (∃ value rest, r.Yields value rest ∧ r'.Yields value rest) ∨
      ∃ expected rest, r.Fails expected rest ∧ r'.Fails expected rest := by
  obtain ⟨-, nesting, sequence⟩ := elsewhere
  have place : r.rest = r'.rest := by
    refine suffix_unique increasing inside inside' ?_
    rwa [Parser.current, Parser.current, ahead_settle, ahead_settle, (p.elsewhere_settle r).2.2,
      (q.elsewhere_settle r').2.2, sequence] at current
  cases r <;> cases r'
  case done.done value rest _ value' rest' _ =>
    obtain rfl : rest = rest' := place
    obtain rfl := Except.ok.inj answer
    exact .inl ⟨value, rest, ⟨_, rfl⟩, ⟨_, rfl⟩⟩
  case stuck.stuck expected rest _ expected' rest' _ =>
    obtain rfl : rest = rest' := place
    have same := congrArg Diagnostic.problem (Except.error.inj answer)
    simp only [diagnose, Parser.current, sequence, nesting] at same
    obtain rfl := Expectation.problem_injective _ _ same
    exact .inr ⟨expected, rest, ⟨_, rfl⟩, ⟨_, rfl⟩⟩
  case done.stuck | stuck.done => cases answer

theorem readBehind_look_of_nil {α : Type} (reader : Reader α) (fresh : p.started = false) (nothing : p.ahead = []) :
    p.look.readBehind reader = p.readBehind reader := by
  have same : p.look.advance = p.advance := by
    simp [advance, look, fresh, nothing]
  rw [readBehind, same, readBehind]

theorem ignoresPriming_of_nil (fresh : p.started = false) (nothing : p.ahead = []) :
    p.IgnoresPriming .group ∧ p.IgnoresPriming .declaration := by
  have group : p.look.group = p.group := readBehind_look_of_nil _ fresh nothing
  have declaration : p.look.declaration = p.declaration := readBehind_look_of_nil _ fresh nothing
  simp only [IgnoresPriming, answer, after, group, declaration, and_self]

section Fresh

variable (table : OperatorTable) (nesting : Int) (file text : String)

theorem same_reading_later {α : Type} {reader : Reader α} (forward : Forward reader) {p : Parser}
    (fresh : p = ofText table nesting file text) (answer : (p.readBehind reader).1 = (p.look.readBehind reader).1)
    (current : (p.readBehind reader).2.current = (p.look.readBehind reader).2.current) :
    (∃ value rest, (reader p.ahead).Yields value rest ∧ (reader p.ahead.tail).Yields value rest) ∨
      ∃ expected rest, (reader p.ahead).Fails expected rest ∧ (reader p.ahead.tail).Fails expected rest := by
  subst fresh
  let p := ofText table nesting file text
  exact same_reading (p := p.look) (q := p.look.advance.look) ⟨rfl, rfl, rfl⟩ (pairwise_precedes_tokenize file text)
    (forward p.ahead) ((forward p.ahead.tail).trans (List.tail_suffix p.ahead)) answer current

/-- A declaration skips its keyword only if it has been looked at before. -/
theorem ignoresPriming_declaration_iff :
    (ofText table nesting file text).IgnoresPriming .declaration ↔ (ofText table nesting file text).ahead = [] := by
  obtain ⟨p, fresh⟩ : ∃ p, p = ofText table nesting file text := ⟨_, rfl⟩
  rw [← fresh]
  constructor
  · intro ignores
    obtain ⟨answer, current⟩ := ignores
    have found := same_reading_later table nesting file text forward_prototype fresh (Answer.prototype.inj answer)
      current
    cases ahead : p.ahead with
    | nil => rfl
    | cons token behind =>
      rw [ahead] at found
      rcases found with ⟨proto, rest, yields, yields'⟩ | ⟨expected, rest, fails, fails'⟩
      · have count := (yields_prototype_iff.mp yields).length_eq
        have count' := (yields_prototype_iff.mp yields').length_eq
        simp at count count'
        omega
      · exact ((fails_prototype_iff.mp fails).not_both (fails_prototype_iff.mp fails')).elim
  · intro nothing
    exact (ignoresPriming_of_nil (by rw [fresh]; rfl) nothing).2

/-- A group that is read, by a parser that has looked at its first token or by one that has not, is not read by the
other one. -/
theorem not_ignoresPriming_group {e : Expr} (read : (ofText table nesting file text).group.1 = .ok e ∨
      (ofText table nesting file text).look.group.1 = .ok e) :
    ¬ (ofText table nesting file text).IgnoresPriming .group := by
  obtain ⟨p, fresh⟩ : ∃ p, p = ofText table nesting file text := ⟨_, rfl⟩
  rw [← fresh] at read ⊢
  intro ignores
  obtain ⟨answer, current⟩ := ignores
  have found := same_reading_later table nesting file text (forward_group (forward_expression p.table p.levels)) fresh
    (Answer.expression.inj answer) current
  have read : p.group.1 = .ok e := read.elim id (Answer.expression.inj answer).trans
  rcases found with ⟨value, rest, yields, yields'⟩ | ⟨expected, rest, ⟨_, fails⟩, -⟩
  · cases ahead : p.ahead with
    | nil =>
      rw [ahead] at yields
      exact absurd yields.shorter (by simp)
    | cons first behind =>
      rw [ahead] at yields yields'
      exact group_not_both yields yields'
  · have refused : p.group.1 = (p.look.settle (Grammar.group (Grammar.expression p.table p.levels) p.ahead)).1 := by
      rw [fresh]
      rfl
    rw [refused, fails] at read
    cases read

end Fresh

/-- Whether a parser has looked at its first token matters to no call but two. A declaration is read from behind that
token only if it has been looked at, and otherwise as a prototype is; so is a group, whose opening parenthesis
otherwise counts for a part of it. The results differ for every declaration unless the text has no token, and for
every group that is read. -/
theorem priming_matters_behind_first (table : OperatorTable) (nesting : Int) (file text : String) :
    let p := ofText table nesting file text
    (∀ call, call ≠ .advance → call ≠ .group → call ≠ .declaration → p.IgnoresPriming call) ∧
      p.declaration = p.prototype ∧ (p.IgnoresPriming .declaration ↔ p.ahead = []) ∧
      p.group = p.read (Grammar.group (Grammar.expression table p.levels)) ∧
      (p.ahead = [] → p.IgnoresPriming .group) ∧
      ∀ e, p.group.1 = .ok e ∨ p.look.group.1 = .ok e → ¬ p.IgnoresPriming .group := by
  intro p
  exact ⟨fun call => p.ignoresPriming_of_ne, rfl, ignoresPriming_declaration_iff table nesting file text, rfl,
    fun nothing => (ignoresPriming_of_nil rfl nothing).1, fun e => not_ignoresPriming_group table nesting file text⟩

/-- A declaration and a group that are read only if the keyword and the parenthesis have been looked at. -/
theorem priming_matters_to_keyword :
    let p := ofText .standard standardNesting "priming" "extern f(x)"
    let q := ofText .standard standardNesting "priming" "(x)"
    p.look.declaration.1.isOk = true ∧ ¬ p.IgnoresPriming .declaration ∧
      q.look.group.1.isOk = true ∧ ¬ q.IgnoresPriming .group := by
  intro p q
  have declared : p.look.declaration.1.isOk = true := by decide +kernel
  have undeclared : p.declaration.1.isOk = false := by decide +kernel
  have grouped : q.look.group.1.isOk = true := by decide +kernel
  have ungrouped : q.group.1.isOk = false := by decide +kernel
  refine ⟨declared, fun ignores => ?_, grouped, fun ignores => ?_⟩
  · have same : p.declaration.1 = p.look.declaration.1 := Answer.prototype.inj ignores.1
    rw [same, declared] at undeclared
    cases undeclared
  · have same : q.group.1 = q.look.group.1 := Answer.expression.inj ignores.1
    rw [same, grouped] at ungrouped
    cases ungrouped

end Parser
end Kaleidoscope
