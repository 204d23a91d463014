import Kaleidoscope.Grammar.Parser

/-! A parser that counts. It descends by methods that ask for the current token, move on and call one another; a
counter goes up where a primary is entered, and down again where it is left, by whichever way. The loop over
operators is the one of precedence climbing, with a call of its own for the tighter ones. Calls and turns of loops take
frames of a stack, eight for a token at most, and a stack that has no more is unwound like any failure. As long as an
expression is read as a reader says, so are the phrases that hold it. -/
namespace Kaleidoscope

/-- A parser at work, inside of so many primaries. -/
structure Descent where
  parser : Parser
  depth : Int

namespace Descent

/-- Why a method does not return. -/
inductive Unwinding where
  | refused (diagnostic : Diagnostic)
  | exhausted

end Descent

/-- What a method does: it returns or is unwound, and leaves a state behind either way. -/
abbrev Act := ExceptT Descent.Unwinding (StateM Descent)

namespace Descent

def exhausted {α : Type} : Act α := fun d => (.error .exhausted, d)

def look (d : Descent) : Descent := { d with parser := d.parser.look }

def enter (d : Descent) : Descent := { d with depth := d.depth + 1 }

def leave (d : Descent) : Descent := { d with depth := d.depth - 1 }

/-- The current token; none at the end of the input. -/
def current? : Act (Option Token) := fun d => (.ok d.parser.ahead.head?, d.look)

def current : Act Token := fun d => (.ok d.parser.current, d.look)

def advance : Act Unit := fun d => (.ok (), { d with parser := d.parser.advance })

def fail {α : Type} (expected : Expectation) : Act α :=
  fun d => (.error (.refused (d.parser.diagnose expected)), d.look)

def demand (c : Char) (expected : Expectation) : Act Unit := do
  if !(← current?).any (·.isChar c) then fail expected

def precedence : Act Int := do
  let token? ← current?
  fun d => (.ok (d.parser.table.precedence (token?.elim .endOfInput (·.lexeme))), d)

mutual

/-- A primary, unless there are too many around it. Whether its form can be read or not, it is left again. -/
def primary : (frames : Nat) → Act Expr
  | 0 => exhausted
  | frames + 1 => fun d =>
    if d.parser.nesting ≤ d.depth then fail .shallowerNesting d
    else
      let (result, d) := primaryForm frames d.enter
      (result, d.leave)

def primaryForm : (frames : Nat) → Act Expr
  | 0 => exhausted
  | frames + 1 => do
    let token ← current
    match (← current?).elim .endOfInput (·.lexeme) with
    | .identifier name => named frames name
    | .number value =>
      advance
      return .number value (some token.location)
    | .character '(' => group frames
    | _ => fail .expression

def named : (frames : Nat) → (name : String) → Act Expr
  | 0, _ => exhausted
  | frames + 1, name => do
    let token ← current
    advance
    if !(← current?).any (·.isChar '(') then return .var name (some token.location)
    advance
    let args ← callArguments frames
    advance
    return .call name args (some token.location)

def callArguments : (frames : Nat) → Act (List Expr)
  | 0 => exhausted
  | frames + 1 => do
    if (← current?).any (·.isChar ')') then return []
    arguments frames []

/-- The arguments up to the closing parenthesis, behind those found already. -/
def arguments : (frames : Nat) → (found : List Expr) → Act (List Expr)
  | 0, _ => exhausted
  | frames + 1, found => do
    if (← current?).isNone then fail .closingParenthesisOrComma
    let value ← expression frames
    let found := found ++ [value]
    if (← current?).any (·.isChar ')') then return found
    demand ',' .closingParenthesisOrComma
    advance
    arguments frames found

/-- A group; whatever token is current counts as its opening parenthesis. -/
def group : (frames : Nat) → Act Expr
  | 0 => exhausted
  | frames + 1 => do
    advance
    let value ← expression frames
    demand ')' .closingParenthesis
    advance
    return value

def expression : (frames : Nat) → Act Expr
  | 0 => exhausted
  | frames + 1 => do
    let first ← primary frames
    climb frames 0 first

/-- Takes operators that bind at least as tightly as `least`. One behind an operand that binds more tightly than the
one before takes the operand first. -/
def climb : (frames : Nat) → (least : Int) → (lhs : Expr) → Act Expr
  | 0, _, _ => exhausted
  | frames + 1, least, lhs => do
    let binding ← precedence
    if binding < least then return lhs
    let op ← current
    advance
    let operand ← primary frames
    let next ← precedence
    let rhs ← (if binding < next then climb frames (binding + 1) operand else pure operand : Act Expr)
    climb frames least (Chain.join lhs op rhs)

end

def parameters : (frames : Nat) → (found : List String) → Act (List String)
  | 0, _ => exhausted
  | frames + 1, found => do
    advance
    match (← current?).elim .endOfInput (·.lexeme) with
    | .identifier name => parameters frames (found ++ [name])
    | _ => return found

def prototype (frames : Nat) : Act Prototype := do
  let token ← current
  match (← current?).elim .endOfInput (·.lexeme) with
  | .identifier name =>
    advance
    demand '(' .openingOfParameters
    let params ← parameters frames []
    demand ')' .closingOfParameters
    advance
    return ⟨name, params, some token.location⟩
  | _ => fail .functionName

/-- A definition; whatever token is current counts as its keyword. -/
def definition (frames : Nat) : Act Function := do
  let keyword ← current
  advance
  let proto ← prototype frames
  let body ← expression frames
  return ⟨proto, body, some keyword.location⟩

/-- A declaration; whatever token is current counts as its keyword. -/
def declaration (frames : Nat) : Act Prototype := do
  advance
  prototype frames

def bareExpression (frames : Nat) : Act Function := do
  return .anonymous (← expression frames)

def entity (frames : Nat) (token : Token) : Act Entity :=
  match token.lexeme with
  | .defKeyword => do return .function (← definition frames)
  | .externKeyword => do return .declaration (← declaration frames)
  | _ => do return .function (← bareExpression frames)

/-- An attempt at an entity. A failure is its outcome, and a stack that was exhausted counts as a nesting that is too
deep. -/
def nextEntity (frames : Nat) (d : Descent) : Outcome × Descent :=
  match d.parser.ahead with
  | [] => (.finished, d.look)
  | token :: _ =>
    if token.isChar ';' then (.separator, { d with parser := d.parser.look.advance })
    else
      match entity frames token d.look with
      | (.ok entity, d) => (.accepted entity, d)
      | (.error (.refused diagnostic), d) => (.refused diagnostic, d)
      | (.error .exhausted, d) => (.refused (d.parser.diagnose .shallowerNesting), d)

variable {α β : Type} {m n frames : Nat} {d e : Descent} {act : Act α} {reader : Reader α} {tokens rest : List Token}
  {expected : Expectation} {c : Char}

theorem bind_eq (act : Act α) (next : α → Act β) (d : Descent) :
    (act >>= next) d =
      match act d with
      | (.ok value, e) => next value e
      | (.error why, e) => (.error why, e) := by
  change ExceptT.bindCont next (act d).1 (act d).2 = _
  cases act d with
  | mk result e => cases result <;> rfl

theorem bind_of_ok {value : α} (ran : act d = (.ok value, e)) (next : α → Act β) :
    (act >>= next) d = next value e := by
  rw [bind_eq, ran]

theorem bind_of_error {why : Unwinding} (ran : act d = (.error why, e)) (next : α → Act β) :
    (act >>= next) d = (.error why, e) := by
  rw [bind_eq, ran]

def moved (d : Descent) (tokens : List Token) : Descent :=
  { d with parser := { d.parser with started := true, ahead := tokens } }

/-- How a method ends that does what the reading says; nothing is counted then that was not before. -/
def settle (d : Descent) : Reading α n → Except Unwinding α × Descent
  | .done value rest _ => (.ok value, d.moved rest)
  | .stuck expected rest _ => (.error (.refused ((d.moved rest).parser.diagnose expected)), d.moved rest)

/-- From any tokens on, the method does what the reader says, with eight frames for each token and some more. -/
def Follows (d : Descent) (more : Nat) (method : (frames : Nat) → Act α) (reader : Reader α) : Prop :=
  ∀ tokens frames, 8 * tokens.length + more ≤ frames →
    method frames (d.moved tokens) = d.settle (reader tokens)

@[simp] theorem settle_weaken (h : m ≤ n) (r : Reading α m) : d.settle (r.weaken h) = d.settle r := by
  cases r <;> rfl

theorem bind_pure_settle {r : Reading α n} (ran : act e = d.settle r) (f : α → β) :
    (do let value ← act; return f value : Act β) e = d.settle (r.map f) := by
  cases r with
  | done value rest shorter =>
    rw [bind_of_ok ran]
    rfl
  | stuck expected rest within => exact bind_of_error ran _

theorem bind_settle {r : Reading α n} {next : α → Act β} {readNext : α → Reader β} (ran : act e = d.settle r)
    (others : ∀ value rest, rest.length < n → next value (d.moved rest) = d.settle (readNext value rest)) :
    (act >>= next) e = d.settle (r.andThen readNext) := by
  cases r with
  | done value rest shorter =>
    rw [bind_of_ok ran, others value rest shorter]
    simp [Reading.andThen]
  | stuck expected rest within => exact bind_of_error ran _

theorem current?_moved : current? (d.moved tokens) = (.ok tokens.head?, d.moved tokens) := rfl

theorem current_moved (tokens : List Token) :
    current (d.moved tokens) = (.ok (tokens.headD d.parser.sequence.final), d.moved tokens) := rfl

theorem advance_moved (tokens : List Token) : advance (d.moved tokens) = (.ok (), d.moved tokens.tail) := rfl

theorem fail_moved (expected : Expectation) (tokens : List Token) :
    (fail expected : Act α) (d.moved tokens) = d.settle (.stuckAt expected tokens : Reading α _) := rfl

theorem demand_moved (is : tokens.head?.any (·.isChar c) = true) :
    demand c expected (d.moved tokens) = (.ok (), d.moved tokens) := by
  rw [demand, bind_of_ok current?_moved, is]
  rfl

theorem demand_moved_not (other : ¬ tokens.head?.any (·.isChar c) = true) :
    demand c expected (d.moved tokens) = d.settle (.stuckAt expected tokens : Reading Unit _) := by
  rw [demand, bind_of_ok current?_moved, Bool.eq_false_iff.mpr other]
  rfl

theorem expectChar_moved (c : Char) (expected : Expectation) (value : α) (tokens : List Token) :
    (do demand c expected; advance; return value : Act α) (d.moved tokens) =
      d.settle ((expectChar c expected tokens).map fun _ => value) := by
  by_cases is : tokens.head?.any (·.isChar c) = true
  · rw [bind_of_ok (demand_moved is), bind_of_ok (advance_moved _)]
    cases tokens with
    | nil => cases is
    | cons token rest =>
      simp only [List.head?_cons, Option.any_some] at is
      simp only [expectChar, is, if_true]
      rfl
  · rw [bind_of_error (demand_moved_not is)]
    cases tokens with
    | nil => rfl
    | cons token rest =>
      simp only [List.head?_cons, Option.any_some] at is
      simp only [expectChar, is]
      rfl

/-- The run does what the reading says, but stops before its last token. -/
def StopsBefore (d : Descent) (r : Reading α n) (ran : Except Unwinding α × Descent) : Prop :=
  match r with
  | .done value rest _ => ∃ last, ran = (.ok value, d.moved (last :: rest))
  | .stuck expected rest _ => ran = (.error (.refused ((d.moved rest).parser.diagnose expected)), d.moved rest)

theorem stopsBefore_weaken {r : Reading α m} {ran : Except Unwinding α × Descent} (h : m ≤ n) :
    d.StopsBefore (r.weaken h) ran ↔ d.StopsBefore r ran := by
  cases r <;> rfl

theorem StopsBefore.passed {r : Reading α n} (stops : d.StopsBefore r (act e)) (f : α → β) :
    (do let value ← act; advance; return f value : Act β) e = d.settle (r.map f) := by
  cases r with
  | done value rest shorter =>
    obtain ⟨last, ran⟩ := stops
    rw [bind_of_ok ran]
    rfl
  | stuck expected rest within => exact bind_of_error stops _

theorem arguments_of_ok {first : Token} {others : List Token} {value : Expr}
    (ran : expression frames (d.moved (first :: others)) = (.ok value, d.moved rest)) (found : List Expr) :
    arguments (frames + 1) found (d.moved (first :: others)) =
      (if rest.head?.any (·.isChar ')') then pure (found ++ [value])
      else do
        demand ',' .closingParenthesisOrComma
        advance
        arguments frames (found ++ [value]) : Act (List Expr)) (d.moved rest) := by
  rw [arguments, bind_of_ok current?_moved]
  exact (bind_of_ok ran _).trans (bind_of_ok current?_moved _)

section Parts

variable {reader : Reader Expr} (inner : Follows d 8 expression reader)

include inner

theorem group_of_advance (passed : advance e = (.ok (), d.moved tokens)) (enough : 8 * tokens.length + 8 ≤ frames) :
    group (frames + 1) e = d.settle (Grammar.group reader tokens) := by
  rw [group, bind_of_ok passed]
  exact bind_settle (inner tokens frames enough) fun value rest _ => expectChar_moved ')' .closingParenthesis value rest

/-- The reader has the latest argument first, and passes the parenthesis that the method stops at. -/
theorem arguments_moved (found : List Expr) (tokens : List Token) (enough : 8 * tokens.length + 9 ≤ frames) :
    d.StopsBefore (Grammar.arguments reader found tokens) (arguments frames found.reverse (d.moved tokens)) := by
  obtain ⟨frames, rfl⟩ := Nat.exists_eq_add_of_le' (Nat.le_trans (Nat.le_add_left 1 _) enough)
  fun_induction Grammar.arguments reader found tokens generalizing frames with
  | case1 found =>
    rw [arguments, bind_of_ok current?_moved]
    rfl
  | case2 found first others expected stuckAt within failed =>
    have ran := inner (first :: others) frames (by omega)
    rw [failed] at ran
    rw [arguments, bind_of_ok current?_moved]
    exact bind_of_error ran _
  | case3 found first others value shorter _ read =>
    have ran := inner (first :: others) frames (by omega)
    rw [read] at ran
    rw [arguments_of_ok ran]
    exact bind_of_error (demand_moved_not (by simp)) _
  | case4 found first others value next behind shorter closing _ read =>
    have ran := inner (first :: others) frames (by omega)
    rw [read] at ran
    refine ⟨next, (arguments_of_ok ran _).trans ?_⟩
    rw [List.head?_cons, Option.any_some, if_pos closing, List.reverse_cons]
    rfl
  | case5 found first others value next behind shorter other separator _ read ih =>
    have ran := inner (first :: others) frames (by omega)
    rw [read] at ran
    rw [arguments_of_ok ran, List.head?_cons, Option.any_some, if_neg other,
      bind_of_ok (demand_moved (by simpa using separator)), bind_of_ok (advance_moved _), stopsBefore_weaken,
      ← List.reverse_cons]
    simp only [List.length_cons] at shorter enough
    obtain ⟨fewer, rfl⟩ := Nat.exists_eq_add_one_of_ne_zero (by omega : frames ≠ 0)
    exact ih fewer (by omega)
  | case6 found first others value next behind shorter other neither _ read =>
    have ran := inner (first :: others) frames (by omega)
    rw [read] at ran
    rw [arguments_of_ok ran, List.head?_cons, Option.any_some, if_neg other]
    exact bind_of_error (demand_moved_not (by simpa using neither)) _

theorem callArguments_moved (tokens : List Token) (enough : 8 * tokens.length + 9 ≤ frames) :
    d.StopsBefore (Grammar.callArguments reader tokens) (callArguments (frames + 1) (d.moved tokens)) := by
  rw [callArguments, bind_of_ok current?_moved]
  cases tokens with
  | nil => exact arguments_moved inner [] [] enough
  | cons next behind =>
    rw [List.head?_cons, Option.any_some, Grammar.callArguments]
    by_cases closing : next.isChar ')' = true
    · rw [if_pos closing, if_pos closing]
      exact ⟨next, rfl⟩
    · rw [if_neg closing, if_neg closing]
      exact arguments_moved inner [] (next :: behind) enough

theorem named_moved (name : String) (word : Token) (rest : List Token) (enough : 8 * rest.length + 2 ≤ frames) :
    named (frames + 1) name (d.moved (word :: rest)) =
      d.settle (Grammar.afterName reader name (some word.location) rest) := by
  rw [named, bind_of_ok (current_moved (word :: rest)), bind_of_ok (advance_moved _), bind_of_ok current?_moved,
    List.tail_cons]
  cases rest with
  | nil => rfl
  | cons next behind =>
    rw [List.head?_cons, Option.any_some, Grammar.afterName]
    by_cases opening : next.isChar '(' = true
    · rw [if_neg (by simp [opening]), if_pos opening, bind_of_ok (advance_moved _), List.tail_cons, settle_weaken]
      rw [List.length_cons] at enough
      obtain ⟨fewer, rfl⟩ := Nat.exists_eq_add_one_of_ne_zero (by omega : frames ≠ 0)
      exact (callArguments_moved inner behind (by omega)).passed fun args => Expr.call name args (some word.location)
    · rw [if_pos (by simp [opening]), if_neg opening]
      rfl

theorem follows_primaryForm : Follows d 6 primaryForm (Grammar.primaryForm reader) := by
  intro tokens frames enough
  obtain ⟨frames, rfl⟩ := Nat.exists_eq_add_one_of_ne_zero (by omega : frames ≠ 0)
  cases tokens with
  | nil =>
    rw [primaryForm]
    rfl
  | cons token rest =>
    rw [List.length_cons] at enough
    obtain ⟨fewer, rfl⟩ := Nat.exists_eq_add_one_of_ne_zero (by omega : frames ≠ 0)
    rw [primaryForm, bind_of_ok (current_moved (token :: rest)), bind_of_ok current?_moved]
    simp only [List.head?_cons, Option.elim_some, Grammar.primaryForm]
    cases lexeme : token.lexeme with
    | identifier name => exact named_moved inner name token rest (by omega)
    | number value => rfl
    | character c =>
      by_cases opening : c = '('
      · subst opening
        simp only [settle_weaken]
        exact group_of_advance inner (advance_moved _) (by omega)
      · split <;> simp_all [fail_moved]
    | _ => rfl

end Parts

theorem parameters_moved (found : List String) (first : Token) (tokens : List Token) (enough : tokens.length < frames) :
    parameters frames found (d.moved (first :: tokens)) =
      (.ok (found ++ (tokens.takeWhile Grammar.isIdentifier).map (·.lexeme.text)),
        d.moved (tokens.dropWhile Grammar.isIdentifier)) := by
  obtain ⟨frames, rfl⟩ := Nat.exists_eq_add_one_of_ne_zero (by omega : frames ≠ 0)
  induction tokens generalizing found first frames with
  | nil =>
    rw [parameters, bind_of_ok (advance_moved _), bind_of_ok current?_moved, List.takeWhile_nil, List.map_nil,
      List.append_nil]
    rfl
  | cons token tokens ih =>
    rw [parameters, bind_of_ok (advance_moved _), bind_of_ok current?_moved]
    rw [List.length_cons] at enough
    obtain ⟨fewer, rfl⟩ := Nat.exists_eq_add_one_of_ne_zero (by omega : frames ≠ 0)
    cases lexeme : token.lexeme with
    | identifier name =>
      have is : Grammar.isIdentifier token = true := by simp [Grammar.isIdentifier, lexeme]
      have later := ih (found ++ [name]) token fewer (by omega)
      simp [lexeme, is, later, Lexeme.text]
    | _ =>
      have other : ¬ Grammar.isIdentifier token = true := by simp [Grammar.isIdentifier, lexeme]
      rw [List.takeWhile_cons_of_neg other, List.dropWhile_cons_of_neg other, List.map_nil, List.append_nil]
      simp only [List.tail_cons, List.head?_cons, Option.elim_some, lexeme]
      rfl

theorem follows_prototype (d : Descent) : Follows d 0 prototype Grammar.prototype := by
  intro tokens frames enough
  rw [prototype, bind_of_ok (current_moved tokens), bind_of_ok current?_moved]
  cases tokens with
  | nil => rfl
  | cons token rest =>
    simp only [List.head?_cons, Option.elim_some, Grammar.prototype]
    cases lexeme : token.lexeme with
    | identifier name =>
      simp only [settle_weaken]
      rw [bind_of_ok (advance_moved _), List.tail_cons]
      by_cases opening : rest.head?.any (·.isChar '(') = true
      · cases rest with
        | nil => cases opening
        | cons next behind =>
          simp only [List.length_cons] at enough
          rw [bind_of_ok (demand_moved opening), bind_of_ok (parameters_moved [] next behind (by omega))]
          refine (expectChar_moved ')' .closingOfParameters _ _).trans ?_
          simp only [List.head?_cons, Option.any_some] at opening
          rw [expectChar, if_pos opening]
          simp only [Reading.andThen, Grammar.parameters]
          cases expectChar ')' .closingOfParameters (behind.dropWhile Grammar.isIdentifier) <;> rfl
      · rw [bind_of_error (demand_moved_not opening)]
        cases rest with
        | nil => rfl
        | cons next behind =>
          simp only [List.head?_cons, Option.any_some] at opening
          rw [expectChar, if_neg opening]
          rfl
    | _ => rfl

end Descent
end Kaleidoscope
