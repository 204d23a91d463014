import Kaleidoscope.Proofs.Grammar.Relocation

/-! Where a parser stands. Reading goes forward, whether it succeeds or gets stuck, so after any calls the current token
is one of the tokens of the text. -/
namespace Kaleidoscope

namespace Reading

variable {α β : Type} {m n : Nat}

@[simp] theorem rest_weaken (h : m ≤ n) (r : Reading α m) : (r.weaken h).rest = r.rest := by
  cases r <;> rfl

@[simp] theorem rest_map (f : α → β) (r : Reading α n) : (r.map f).rest = r.rest := by
  cases r <;> rfl

theorem rest_andThen_suffix {r : Reading α n} {next : (value : α) → Reader β}
    (forward : ∀ value tokens, (next value tokens).rest <:+ tokens) : (r.andThen next).rest <:+ r.rest := by
  cases r with
  | done value rest shorter =>
    rw [andThen, rest_weaken]
    exact forward value rest
  | stuck expected rest within => exact List.suffix_refl rest

end Reading

namespace Grammar

def Forward {α : Type} (reader : Reader α) : Prop := ∀ tokens, (reader tokens).rest <:+ tokens

variable {table : OperatorTable} {operand expression : Reader Expr}

theorem forward_expectChar (c : Char) (expected : Expectation) : Forward (expectChar c expected) := by
  intro tokens
  cases tokens with
  | nil => exact List.suffix_refl []
  | cons token rest =>
    rw [expectChar]
    split
    · exact List.suffix_cons token rest
    · exact List.suffix_refl _

theorem rest_links_suffix (forward : Forward operand) (least : Int) (found : List Link) (tokens : List Token) {n : Nat}
    (h : tokens.length < n) : (links table least operand found tokens h).rest <:+ tokens := by
  induction length : tokens.length using Nat.strongRecOn generalizing tokens found with
  | ind k ih =>
    subst length
    unfold links
    cases tokens with
    | nil =>
      dsimp only
      split
      · exact List.suffix_refl []
      · have rest := forward []
        split
        · next stuck => rwa [stuck] at rest
        · next shorter _ => exact absurd shorter (Nat.not_lt_zero _)
    | cons op behind =>
      dsimp only
      split
      · exact List.suffix_refl _
      · have rest := forward behind
        split
        · next stuck =>
          rw [stuck] at rest
          exact rest.trans (List.suffix_cons op behind)
        · next shorter read =>
          rw [read] at rest
          exact ((ih _ (Nat.lt_succ_of_lt shorter) _ _ _ rfl).trans rest).trans (List.suffix_cons op behind)

theorem forward_chain (forward : Forward operand) : Forward (chain table operand) := by
  intro tokens
  have first := forward tokens
  unfold chain
  cases read : operand tokens with
  | stuck expected rest within => rwa [read] at first
  | done value rest shorter =>
    rw [read] at first
    rw [Reading.rest_map]
    exact (rest_links_suffix forward 0 [] rest shorter).trans first

theorem forward_group (forward : Forward expression) : Forward (group expression) := by
  intro tokens
  refine (Reading.rest_andThen_suffix fun value rest => ?_).trans (forward tokens)
  rw [Reading.rest_map]
  exact forward_expectChar _ _ rest

theorem forward_arguments (forward : Forward expression) (found : List Expr) : Forward (arguments expression found) := by
  intro tokens
  induction tokens using (measure List.length).wf.induction generalizing found with
  | h tokens ih =>
    unfold arguments
    cases tokens with
    | nil => exact List.suffix_refl []
    | cons first others =>
      have rest := forward (first :: others)
      dsimp only
      split
      · next stuck => rwa [stuck] at rest
      · next value left shorter read =>
        rw [read] at rest
        cases left with
        | nil => exact List.nil_suffix
        | cons next behind =>
          have passed := (List.suffix_cons next behind).trans rest
          dsimp only
          split
          · exact passed
          · split
            · rw [Reading.rest_weaken]
              exact (ih behind (Nat.lt_of_succ_lt shorter) _).trans passed
            · exact rest

theorem forward_callArguments (forward : Forward expression) : Forward (callArguments expression) := by
  intro tokens
  unfold callArguments
  split
  · exact forward_arguments forward [] []
  · split
    · exact List.suffix_cons _ _
    · exact forward_arguments forward [] _

theorem rest_afterName_suffix (forward : Forward expression) (name : String) (at? : Option Location)
    (tokens : List Token) : (afterName expression name at? tokens).rest <:+ tokens := by
  unfold afterName
  split
  · exact List.suffix_refl []
  · split
    · rw [Reading.rest_weaken, Reading.rest_map]
      exact (forward_callArguments forward _).trans (List.suffix_cons _ _)
    · exact List.suffix_refl _

theorem forward_primaryForm (forward : Forward expression) : Forward (primaryForm expression) := by
  intro tokens
  unfold primaryForm
  split
  · exact List.suffix_refl []
  · next token rest =>
    split
    · exact (rest_afterName_suffix forward _ _ rest).trans (List.suffix_cons token rest)
    · exact List.suffix_cons token rest
    · rw [Reading.rest_weaken]
      exact (forward_group forward rest).trans (List.suffix_cons token rest)
    · exact List.suffix_refl _

theorem forward_primary (table : OperatorTable) (levels : Nat) : Forward (primary table levels) := by
  induction levels with
  | zero => exact fun tokens => List.suffix_refl tokens
  | succ levels ih => exact forward_primaryForm (forward_chain ih)

theorem forward_expression (table : OperatorTable) (levels : Nat) : Forward (Grammar.expression table levels) :=
  forward_chain (forward_primary table levels)

theorem forward_parameters : Forward parameters := by
  intro tokens
  rw [parameters, Reading.rest_weaken, Reading.rest_map]
  exact (forward_expectChar _ _ _).trans (List.dropWhile_suffix _)

theorem forward_prototype : Forward prototype := by
  intro tokens
  unfold prototype
  split
  · exact List.suffix_refl []
  · next token rest =>
    split
    · rw [Reading.rest_weaken, Reading.rest_map]
      exact ((Reading.rest_andThen_suffix fun _ => forward_parameters).trans (forward_expectChar _ _ rest)).trans
        (List.suffix_cons token rest)
    · exact List.suffix_refl _

theorem forward_definition (table : OperatorTable) (levels : Nat) (at? : Option Location) :
    Forward (definition table levels at?) := by
  intro tokens
  refine (Reading.rest_andThen_suffix fun proto rest => ?_).trans (forward_prototype tokens)
  rw [Reading.rest_map]
  exact forward_expression table levels rest

end Grammar

namespace Parser

open Grammar

variable {p q : Parser}

theorem ahead_read_suffix {α : Type} {reader : Reader α} (forward : Forward reader) (p : Parser) :
    (p.read reader).2.ahead <:+ p.ahead := by
  rw [read, ahead_settle]
  exact forward p.ahead

theorem ahead_advance_suffix (p : Parser) : p.advance.ahead <:+ p.ahead := by
  unfold advance
  split
  · exact List.tail_suffix _
  · exact List.suffix_refl _

theorem ahead_after_suffix (p : Parser) (call : Call) : (p.after call).ahead <:+ p.ahead := by
  have expression := forward_expression p.table p.levels
  cases call with
  | advance => exact p.ahead_advance_suffix
  | expression => exact ahead_read_suffix expression p
  | primary => exact ahead_read_suffix (forward_primary _ _) p
  | primaryForm => exact ahead_read_suffix (forward_primaryForm expression) p
  | continuation least operand =>
    rw [after, continuation, ahead_settle, Reading.rest_map]
    exact rest_links_suffix (forward_primary _ _) least [] p.ahead _
  | group => exact (ahead_read_suffix (forward_group expression) p.advance).trans p.ahead_advance_suffix
  | prototype => exact ahead_read_suffix forward_prototype p
  | definition =>
    exact (ahead_read_suffix (forward_definition _ _ _) p.look.advance).trans p.look.ahead_advance_suffix
  | declaration => exact (ahead_read_suffix forward_prototype p.advance).trans p.ahead_advance_suffix
  | bareExpression =>
    refine ahead_read_suffix (fun tokens => ?_) p
    rw [Reading.rest_map]
    exact expression tokens
  | nextEntity => exact p.nextEntity_suffix

theorem ahead_calls_suffix (p : Parser) (calls : List Call) : (calls.foldl after p).ahead <:+ p.ahead := by
  induction calls generalizing p with
  | nil => exact List.suffix_refl _
  | cons call calls ih => exact (ih (p.after call)).trans (p.ahead_after_suffix call)

end Parser
end Kaleidoscope
