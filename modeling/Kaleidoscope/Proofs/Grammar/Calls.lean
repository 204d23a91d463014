import Kaleidoscope.Proofs.Grammar.Acceptance
import Kaleidoscope.Proofs.Grammar.Climbing

/-! What a call does to a parser, and to one that counts. A call moves a parser and nothing else, and a descent from
outside of all primaries makes of it what the parser makes, with its counter at zero again at the end, whether the
call returns or fails. -/
namespace Kaleidoscope

namespace Parser

inductive Call where
  | advance
  | expression
  | primary
  | primaryForm
  | continuation (least : Int) (operand : Expr)
  | group
  | prototype
  | definition
  | declaration
  | bareExpression
  | nextEntity

/-- The parser after a call, whether it succeeded or failed. -/
def after (p : Parser) : Call → Parser
  | .advance => p.advance
  | .expression => p.expression.2
  | .primary => p.primary.2
  | .primaryForm => p.primaryForm.2
  | .continuation least operand => (p.continuation least operand).2
  | .group => p.group.2
  | .prototype => p.prototype.2
  | .definition => p.definition.2
  | .declaration => p.declaration.2
  | .bareExpression => p.bareExpression.2
  | .nextEntity => p.nextEntity.2

/-- The parser is the other one, possibly somewhere else. -/
def Elsewhere (p q : Parser) : Prop :=
  q.table = p.table ∧ q.nesting = p.nesting ∧ q.sequence = p.sequence

theorem Elsewhere.refl (p : Parser) : p.Elsewhere p := ⟨rfl, rfl, rfl⟩

theorem Elsewhere.trans {p q r : Parser} (first : p.Elsewhere q) (second : q.Elsewhere r) : p.Elsewhere r := by
  obtain ⟨table, nesting, sequence⟩ := first
  obtain ⟨table', nesting', sequence'⟩ := second
  exact ⟨table'.trans table, nesting'.trans nesting, sequence'.trans sequence⟩

theorem elsewhere_settle {α : Type} {n : Nat} (p : Parser) (r : Reading α n) : p.Elsewhere (p.settle r).2 := by
  cases r <;> exact ⟨rfl, rfl, rfl⟩

theorem elsewhere_advance (p : Parser) : p.Elsewhere p.advance := by
  unfold advance
  split <;> exact ⟨rfl, rfl, rfl⟩

theorem elsewhere_nextEntity (p : Parser) : p.Elsewhere p.nextEntity.2 := by
  rcases p.nextEntity_cases with ⟨-, attempt⟩ | ⟨_, _, -, -, attempt⟩ | ⟨_, _, -, attempt⟩ |
    ⟨_, _, _, _, q, -, -, -, rfl, attempt⟩
  all_goals
    rw [attempt]
    exact ⟨rfl, rfl, rfl⟩

theorem elsewhere_after (p : Parser) (call : Call) : p.Elsewhere (p.after call) := by
  cases call with
  | advance => exact p.elsewhere_advance
  | nextEntity => exact p.elsewhere_nextEntity
  | group | declaration => exact p.elsewhere_advance.trans (p.advance.look.elsewhere_settle _)
  | definition => exact p.look.elsewhere_advance.trans (p.look.advance.look.elsewhere_settle _)
  | _ => exact p.look.elsewhere_settle _

theorem elsewhere_calls (p : Parser) (calls : List Call) : p.Elsewhere (calls.foldl after p) := by
  induction calls generalizing p with
  | nil => exact .refl p
  | cons call calls ih => exact (p.elsewhere_after call).trans (ih (p.after call))

theorem started_advance (p : Parser) : p.advance.started = true := by
  cases started : p.started <;> simp [advance, look, started]

theorem length_ahead_advance_le (p : Parser) : p.advance.ahead.length ≤ p.ahead.length := by
  cases started : p.started <;> simp [advance, look, started]

end Parser

namespace Descent

open Grammar

variable {α : Type} {more frames : Nat} {method : (frames : Nat) → Act α} {reader : Reader α} {p : Parser}

theorem advance_ofParser (p : Parser) : advance (ofParser p) = (.ok (), ofParser p.advance) := rfl

theorem expression_moved (p : Parser) : Follows (ofParser p) 8 expression (Grammar.expression p.table p.levels) :=
  follows_expression (follows_ofParser p)

theorem follows_definition (p : Parser) (at? : Option Location) :
    Follows (ofParser p) 8
      (fun frames => do let proto ← prototype frames; let body ← expression frames; return ⟨proto, body, at?⟩)
      (Grammar.definition p.table p.levels at?) := by
  intro tokens frames enough
  refine bind_settle (follows_prototype _ tokens frames (by omega)) fun proto rest shorter => ?_
  exact bind_pure_settle (expression_moved p rest frames (by omega)) fun body => (⟨proto, body, at?⟩ : Function)

theorem follows_entity (p : Parser) (token : Token) (rest : List Token) (enough : 8 * (rest.length + 1) + 8 ≤ frames) :
    entity frames token ((ofParser p).moved (token :: rest)) =
      (ofParser p).settle (Grammar.entity p.table p.levels (token :: rest)) := by
  have advanced : advance ((ofParser p).moved (token :: rest)) = (.ok (), (ofParser p).moved rest) := rfl
  rw [entity, Grammar.entity]
  cases lexeme : token.lexeme with
  | defKeyword =>
    simp only [settle_weaken]
    refine bind_pure_settle ?_ Entity.function
    rw [definition, bind_of_ok (current_moved (token :: rest)), bind_of_ok advanced]
    exact follows_definition p (some token.location) rest frames (by omega)
  | externKeyword =>
    simp only [settle_weaken]
    refine bind_pure_settle ?_ Entity.declaration
    rw [declaration, bind_of_ok advanced]
    exact follows_prototype (ofParser p) rest frames (by omega)
  | _ =>
    have body := bind_pure_settle (expression_moved p (token :: rest) frames enough) Function.anonymous
    refine (bind_pure_settle body Entity.function).trans ?_
    cases Grammar.expression p.table p.levels (token :: rest) <;> rfl

theorem Follows.read (follows : Follows (ofParser p) more method reader)
    (looks : method frames (ofParser p).look = method frames (ofParser p))
    (enough : 8 * p.ahead.length + more ≤ frames) :
    method frames (ofParser p) = counting (p.read reader) := by
  rw [Parser.read, counting_settle]
  exact follows.here looks enough

section Methods

variable (enough : 8 * p.ahead.length + 9 ≤ frames)

include enough

theorem primary_eq : primary frames (ofParser p) = counting p.primary :=
  (follows_ofParser p).read (primary_look (by omega) _) (by omega)

theorem primaryForm_eq : primaryForm frames (ofParser p) = counting p.primaryForm :=
  (follows_primaryForm (expression_moved p)).read (primaryForm_look (by omega) _) (by omega)

theorem expression_eq : expression frames (ofParser p) = counting p.expression :=
  (expression_moved p).read (expression_look (by omega) _) (by omega)

theorem prototype_eq : prototype frames (ofParser p) = counting p.prototype := by
  refine (follows_prototype _).read ?_ (by omega)
  rw [prototype]
  exact bind_look rfl _

theorem group_eq : group frames (ofParser p) = counting p.group := by
  obtain ⟨frames, rfl⟩ := Nat.exists_eq_add_one_of_ne_zero (by omega : frames ≠ 0)
  have moved : ofParser p.advance = (ofParser p.advance).moved p.advance.ahead := by
    simp [ofParser, Descent.moved, ← p.started_advance]
  obtain ⟨table, nesting, -⟩ := p.elsewhere_advance
  have levels : p.advance.levels = p.levels := congrArg Int.toNat nesting
  have length := p.length_ahead_advance_le
  rw [Parser.group, Parser.readBehind, Parser.read, counting_settle, ← table, ← levels]
  exact group_of_advance (expression_moved p.advance) ((advance_ofParser p).trans (by rw [← moved])) (by omega)

theorem declaration_eq : declaration frames (ofParser p) = counting p.declaration := by
  have length := p.length_ahead_advance_le
  rw [declaration, bind_of_ok (advance_ofParser p)]
  exact prototype_eq (by omega)

theorem definition_eq : definition frames (ofParser p) = counting p.definition := by
  have looked : current (ofParser p) = (.ok p.current, ofParser p.look) := rfl
  rw [definition, bind_of_ok looked, bind_of_ok (advance_ofParser p.look), Parser.definition, Parser.readBehind,
    Parser.read, counting_settle]
  exact follows_definition p (some p.current.location) p.ahead.tail frames (by rw [List.length_tail]; omega)

theorem bareExpression_eq : bareExpression frames (ofParser p) = counting p.bareExpression := by
  rw [bareExpression, Parser.bareExpression, Parser.read, counting_settle]
  refine bind_pure_settle ?_ Function.anonymous
  exact (expression_eq enough).trans (counting_settle p _)

/-- An attempt ends as the parser says, and nothing is counted after it. -/
theorem nextEntity_eq : nextEntity frames (ofParser p) = (p.nextEntity.1, ofParser p.nextEntity.2) := by
  have front : (ofParser p).parser.ahead = p.ahead := rfl
  have look : (ofParser p).look = (ofParser p).moved p.ahead := rfl
  rw [nextEntity, Parser.nextEntity, front]
  cases ahead : p.ahead with
  | nil => rfl
  | cons token rest =>
    simp only
    rw [ahead, List.length_cons] at enough
    by_cases separator : token.isChar ';' = true
    · rw [if_pos separator, if_pos separator]
      rfl
    · rw [if_neg separator, if_neg separator, look, ahead, follows_entity p token rest (by omega), Parser.read, ahead]
      cases Grammar.entity p.table p.levels (token :: rest) <;> rfl

end Methods

theorem nextEntity_ends (p : Parser) :
    Ends (nextEntity · (ofParser p)) (p.nextEntity.1, ofParser p.nextEntity.2) :=
  ⟨_, fun _ enough => nextEntity_eq enough⟩

/-- The descent after a call, whether it returned or was unwound. -/
def perform (frames : Nat) (d : Descent) : Parser.Call → Descent
  | .advance => (advance d).2
  | .expression => (expression frames d).2
  | .primary => (primary frames d).2
  | .primaryForm => (primaryForm frames d).2
  | .continuation least lhs => (climb frames least lhs d).2
  | .group => (group frames d).2
  | .prototype => (prototype frames d).2
  | .definition => (definition frames d).2
  | .declaration => (declaration frames d).2
  | .bareExpression => (bareExpression frames d).2
  | .nextEntity => (nextEntity frames d).2

theorem perform_eq (call : Parser.Call) (enough : 8 * p.ahead.length + 9 ≤ frames) :
    perform frames (ofParser p) call = ofParser (p.after call) := by
  cases call with
  | advance => rfl
  | expression => exact congrArg Prod.snd (expression_eq enough)
  | primary => exact congrArg Prod.snd (primary_eq enough)
  | primaryForm => exact congrArg Prod.snd (primaryForm_eq enough)
  | continuation least lhs => exact congrArg Prod.snd (climb_eq p least lhs (Nat.le_of_succ_le enough))
  | group => exact congrArg Prod.snd (group_eq enough)
  | prototype => exact congrArg Prod.snd (prototype_eq enough)
  | definition => exact congrArg Prod.snd (definition_eq enough)
  | declaration => exact congrArg Prod.snd (declaration_eq enough)
  | bareExpression => exact congrArg Prod.snd (bareExpression_eq enough)
  | nextEntity => exact congrArg Prod.snd (nextEntity_eq enough)

/-- On a stack that suffices the calls do to a parser that counts what they do to one that does not. -/
theorem performs_eq (p : Parser) (calls : List Parser.Call) :
    Ends (fun frames => calls.foldl (perform frames) (ofParser p)) (ofParser (calls.foldl Parser.after p)) := by
  induction calls generalizing p with
  | nil => exact ⟨0, fun _ _ => rfl⟩
  | cons call calls ih =>
    obtain ⟨enough, others⟩ := ih (p.after call)
    refine ⟨max enough (8 * p.ahead.length + 9), fun frames bound => ?_⟩
    change (call :: calls).foldl (perform frames) (ofParser p) = _
    rw [List.foldl_cons, perform_eq call (Nat.le_trans (Nat.le_max_right _ _) bound), List.foldl_cons]
    exact others frames (Nat.le_trans (Nat.le_max_left _ _) bound)

end Descent
end Kaleidoscope
