import Kaleidoscope.Proofs.Grammar.Descent
import Kaleidoscope.Proofs.Grammar.Links

/-! Precedence climbing. The loop that takes operators, and calls itself where a tighter one follows, goes over the
longest run of operators and operands and builds the tree that this run has when it is grouped by precedence: a run
splits behind the tighter operators at its front, and its tree may be built in the same two stages. With that, a
counted descent is what a parser with as many levels left makes of the tokens. -/
namespace Kaleidoscope

namespace Grammar

variable {table : OperatorTable} {least higher : Int} {operand : Reader Expr} {found result : List Link}
  {op : Token} {behind tokens rest : List Token} {value : Expr} {n : Nat}

def binding (table : OperatorTable) (tokens : List Token) : Int :=
  table.precedence (tokens.head?.elim .endOfInput (·.lexeme))

theorem links_of_loose (loose : binding table tokens < least) (found : List Link) (bound : tokens.length < n) :
    links table least operand found tokens bound = .done found.reverse tokens bound := by
  cases tokens with
  | nil | cons _ _ =>
    rw [links]
    exact if_pos loose

theorem links_of_stuck {expected : Expectation} {within : rest.length ≤ tokens.tail.length}
    (tight : ¬ binding table tokens < least) (failed : operand tokens.tail = .stuck expected rest within)
    (found : List Link) (bound : tokens.length < n) :
    ∃ within, links table least operand found tokens bound = .stuck expected rest within := by
  cases tokens with
  | nil =>
    have tight : ¬ table.precedence .endOfInput < least := tight
    have failed : operand [] = .stuck expected rest within := failed
    refine ⟨Nat.le_trans within (Nat.zero_le n), ?_⟩
    rw [links, if_neg tight, failed]
  | cons op behind =>
    have tight : ¬ table.precedence op.lexeme < least := tight
    have failed : operand behind = .stuck expected rest within := failed
    refine ⟨Nat.le_trans within (Nat.le_of_lt (Nat.lt_of_succ_lt bound)), ?_⟩
    rw [links]
    simp only [if_neg tight, failed]

theorem links_of_done {shorter : rest.length < behind.length} (tight : ¬ binding table (op :: behind) < least)
    (read : operand behind = .done value rest shorter) (found : List Link) (bound : (op :: behind).length < n) :
    ∃ bound', links table least operand found (op :: behind) bound =
      links table least operand (⟨op, binding table (op :: behind), value⟩ :: found) rest bound' := by
  have tight : ¬ table.precedence op.lexeme < least := tight
  refine ⟨Nat.lt_trans shorter (Nat.lt_of_succ_lt bound), ?_⟩
  rw [links]
  simp only [if_neg tight, read]
  rfl

/-- What links that were read are, and where they end. -/
theorem links_done {shorter : rest.length < n} (bound : tokens.length < n)
    (read : links table least operand found tokens bound = .done result rest shorter) :
    ∃ more, result = found.reverse ++ more ∧ (∀ link ∈ more, least ≤ link.precedence) ∧
      (∀ link ∈ more.head?, link.precedence = binding table tokens) ∧ binding table rest < least ∧
      rest.length ≤ tokens.length := by
  fun_induction links table least operand found tokens bound with
  | case1 found bound loose =>
    cases read
    exact ⟨[], by simp, by simp, by simp, loose, Nat.le_refl _⟩
  | case2 found bound tight expected stuckAt within failed => simp at read
  | case3 found op behind bound precedence loose =>
    cases read
    exact ⟨[], by simp, by simp, by simp, loose, Nat.le_refl _⟩
  | case4 found op behind bound precedence tight expected stuckAt within failed => cases read
  | case5 found op behind bound precedence tight value middle shorter' first _ ih =>
    obtain ⟨more, rfl, tightly, -, ends, length⟩ := ih read
    refine ⟨⟨op, precedence, value⟩ :: more, by simp, ?_, ?_, ends, ?_⟩
    · exact List.forall_mem_cons.mpr ⟨Int.not_lt.mp tight, tightly⟩
    · simp [binding, precedence]
    · exact Nat.le_succ_of_le (Nat.le_of_lt (Nat.lt_of_le_of_lt length shorter'))

/-- Links may be read in two stages, the tighter ones at the front first. -/
theorem links_split (le : least ≤ higher) (bound : tokens.length < n) :
    links table least operand found tokens bound =
      match links table higher operand found tokens bound with
      | .done inner rest shorter => links table least operand inner.reverse rest shorter
      | .stuck expected rest within => .stuck expected rest within := by
  fun_induction links table higher operand found tokens bound with
  | case1 found bound loose => simp
  | case2 found bound tight expected stuckAt within failed =>
    have tight : ¬ binding table [] < least := by
      change ¬ table.precedence .endOfInput < least
      omega
    obtain ⟨_, same⟩ := links_of_stuck tight failed found bound
    exact same
  | case3 found op behind bound precedence loose => simp
  | case4 found op behind bound precedence tight expected stuckAt within failed =>
    have tight : ¬ precedence < least := by omega
    obtain ⟨_, same⟩ := links_of_stuck tight failed found bound
    exact same
  | case5 found op behind bound precedence tight value middle shorter' first _ ih =>
    have tight : ¬ precedence < least := by omega
    obtain ⟨_, same⟩ := links_of_done tight first found bound
    rw [same]
    exact ih

theorem links_found (found : List Link) (bound : tokens.length < n) :
    links table least operand found tokens bound =
      (links table least operand [] tokens bound).map (found.reverse ++ ·) := by
  obtain ⟨size, small⟩ : ∃ size, tokens.length < size := ⟨_, bound⟩
  induction size generalizing tokens found n with
  | zero => exact absurd small (Nat.not_lt_zero _)
  | succ size ih =>
    by_cases loose : binding table tokens < least
    · rw [links_of_loose loose, links_of_loose loose]
      simp [Reading.map]
    · cases read : operand tokens.tail with
      | stuck expected rest within =>
        obtain ⟨_, same⟩ := links_of_stuck loose read found bound
        obtain ⟨_, same'⟩ := links_of_stuck loose read [] bound
        rw [same, same']
        rfl
      | done value rest shorter =>
        cases tokens with
        | nil => exact absurd shorter (Nat.not_lt_zero _)
        | cons op behind =>
          have small : rest.length < size := Nat.lt_trans shorter (Nat.lt_of_succ_lt_succ small)
          obtain ⟨_, same⟩ := links_of_done loose read found bound
          obtain ⟨_, same'⟩ := links_of_done loose read [] bound
          rw [same, same', ih (_ :: found) _ small, ih [_] _ small]
          cases links table least operand [] rest _ <;> simp [Reading.map]

/-- The tree of links may be built in stages: tighter links behind an operand first. -/
theorem links_grouped {shorter : rest.length < behind.length} (tight : ¬ binding table (op :: behind) < least)
    (read : operand behind = .done value rest shorter) (bound : (op :: behind).length < n) (bound' : rest.length < n)
    (lhs : Expr) :
    (links table least operand [] (op :: behind) bound).map (Chain.tree lhs) =
      match links table (binding table (op :: behind) + 1) operand [] rest bound' with
      | .done inner middle shorter => (links table least operand [] middle shorter).map
          (Chain.tree (Chain.join lhs op (Chain.tree value inner)))
      | .stuck expected stuckAt within => .stuck expected stuckAt within := by
  obtain ⟨_, same⟩ := links_of_done tight read [] bound
  have le : least ≤ binding table (op :: behind) + 1 := by omega
  rw [same, links_split le, links_found [_]]
  cases inside : links table (binding table (op :: behind) + 1) operand [] rest bound' with
  | stuck expected stuckAt within => rfl
  | done inner middle shorter' =>
    obtain ⟨_, rfl, tightly, -, ends, -⟩ := links_done bound' inside
    simp only [Reading.map]
    rw [links_found]
    cases outside : links table least operand [] middle shorter' with
    | stuck expected stuckAt within => rfl
    | done outer last shorter'' =>
      obtain ⟨_, rfl, -, head, -, -⟩ := links_done shorter' outside
      simp only [Reading.map, Reading.done.injEq, and_true]
      have above : ∀ other ∈ inner, binding table (op :: behind) < other.precedence := by
        intro other member
        exact Int.lt_of_add_one_le (tightly other member)
      have later : ∀ other ∈ outer.head?, other.precedence ≤ binding table (op :: behind) := by
        intro other first
        have := head other first
        omega
      rw [List.reverse_reverse]
      exact Chain.tree_grouped above later lhs

end Grammar

namespace Descent

open Grammar

/-- With so many frames or more on the stack, it comes to this end. -/
def Ends {α : Type} (run : (frames : Nat) → α) (result : α) : Prop :=
  ∃ enough, ∀ frames, enough ≤ frames → run frames = result

/-- The longest run of operators that bind at least so tightly, each with a primary behind it. -/
inductive Run (d : Descent) (least : Int) : List Token → List Link → List Token → Prop where
  | stop (ends : ∀ token ∈ tokens.head?, ¬ Joins d.parser.table least token) : Run d least tokens [] tokens
  | more (joins : Joins d.parser.table least op)
      (reads : Ends (primary · (d.moved behind)) (.ok value, d.moved middle)) (run : Run d least middle found rest) :
      Run d least (op :: behind) (⟨op, d.parser.table.precedence op.lexeme, value⟩ :: found) rest

variable {α β : Type} {d e d' : Descent} {act : Act α} {method : (frames : Nat) → Act α} {reader : Reader α}
  {operand : Reader Expr} {tokens rest : List Token} {least : Int} {frames more n : Nat}

theorem ends_iff {run : (frames : Nat) → α} {result other : α} (ends : Ends run result) :
    Ends run other ↔ result = other := by
  obtain ⟨enough, runs⟩ := ends
  constructor
  · intro h
    obtain ⟨enough', runs'⟩ := h
    exact (runs _ (Nat.le_max_left _ _)).symm.trans (runs' _ (Nat.le_max_right _ _))
  · intro same
    exact ⟨enough, same ▸ runs⟩

theorem precedence_moved (tokens : List Token) :
    precedence (d.moved tokens) = (.ok (binding d.parser.table tokens), d.moved tokens) := rfl

theorem climb_of_loose (loose : binding d.parser.table tokens < least) (lhs : Expr) :
    climb (frames + 1) least lhs (d.moved tokens) = (.ok lhs, d.moved tokens) := by
  rw [climb, bind_of_ok (precedence_moved tokens), if_pos loose]
  rfl

theorem climb_of_error {why : Unwinding} (tight : ¬ binding d.parser.table tokens < least)
    (ran : primary frames (d.moved tokens.tail) = (.error why, e)) (lhs : Expr) :
    climb (frames + 1) least lhs (d.moved tokens) = (.error why, e) := by
  rw [climb, bind_of_ok (precedence_moved tokens), if_neg tight, bind_of_ok (current_moved tokens),
    bind_of_ok (advance_moved tokens), bind_of_error ran]

theorem climb_of_ok {op : Token} {behind : List Token} {value : Expr}
    (tight : ¬ binding d.parser.table (op :: behind) < least)
    (ran : primary frames (d.moved behind) = (.ok value, d.moved rest)) (lhs : Expr) :
    let binds := binding d.parser.table (op :: behind)
    climb (frames + 1) least lhs (d.moved (op :: behind)) =
      (do
        let rhs ← (if binds < binding d.parser.table rest then climb frames (binds + 1) value else pure value : Act Expr)
        climb frames least (Chain.join lhs op rhs) : Act Expr) (d.moved rest) := by
  rw [climb, bind_of_ok (precedence_moved _), if_neg tight, bind_of_ok (current_moved _),
    bind_of_ok (advance_moved _), List.tail_cons, bind_of_ok ran, bind_of_ok (precedence_moved rest)]
  rfl

/-- Operators are taken as the links of the reader say, however they are grouped on the way. The induction is on the
frames: the inner call and the next turn have one less, and fewer tokens to go. -/
theorem climb_moved (operands : Follows d 7 primary operand) (least : Int) (lhs : Expr) (bound : tokens.length < n)
    (enough : 8 * tokens.length + 8 ≤ frames) :
    climb frames least lhs (d.moved tokens) =
      d.settle ((links d.parser.table least operand [] tokens bound).map (Chain.tree lhs)) := by
  induction frames generalizing tokens n least lhs with
  | zero => exact absurd enough (by omega)
  | succ frames ih =>
    by_cases loose : binding d.parser.table tokens < least
    · rw [climb_of_loose loose, links_of_loose loose]
      rfl
    · have ran := operands tokens.tail frames (by rw [List.length_tail]; omega)
      cases read : operand tokens.tail with
      | stuck expected rest within =>
        rw [read] at ran
        obtain ⟨_, same⟩ := links_of_stuck loose read [] bound
        rw [climb_of_error loose ran, same]
        rfl
      | done value rest shorter =>
        cases tokens with
        | nil => exact absurd shorter (Nat.not_lt_zero _)
        | cons op behind =>
          rw [read] at ran
          rw [List.length_cons] at enough
          rw [List.tail_cons] at shorter
          have bound' : rest.length < n := Nat.lt_trans shorter (Nat.lt_of_succ_lt bound)
          let binds := binding d.parser.table (op :: behind)
          -- Behind an operator that is no tighter the inner call would return at once.
          have grouped : (if binds < binding d.parser.table rest then climb frames (binds + 1) value
                else pure value : Act Expr) (d.moved rest) =
              d.settle ((links d.parser.table (binds + 1) operand [] rest bound').map (Chain.tree value)) := by
            split
            · exact ih (binds + 1) value bound' (by omega)
            · rw [links_of_loose (by omega)]
              rfl
          rw [climb_of_ok loose ran, links_grouped loose read bound bound']
          cases inner : links d.parser.table (binds + 1) operand [] rest bound' with
          | stuck expected middle within =>
            rw [inner] at grouped
            rw [bind_of_error grouped]
            rfl
          | done found middle shorter' =>
            rw [inner] at grouped
            obtain ⟨-, -, -, -, -, length⟩ := links_done bound' inner
            rw [bind_of_ok grouped]
            exact ih least _ shorter' (by omega)

theorem follows_expression (operands : Follows d 7 primary operand) :
    Follows d 8 expression (chain d.parser.table operand) := by
  intro tokens frames enough
  obtain ⟨frames, rfl⟩ := Nat.exists_eq_add_one_of_ne_zero (by omega : frames ≠ 0)
  have ran := operands tokens frames (by omega)
  rw [expression, chain]
  cases read : operand tokens with
  | stuck expected rest within =>
    rw [read] at ran
    rw [bind_of_error ran]
    rfl
  | done first rest shorter =>
    rw [read] at ran
    rw [bind_of_ok ran]
    exact climb_moved operands 0 first shorter (by omega)

def levels (d : Descent) : Nat := (d.parser.nesting - d.depth).toNat

theorem leave_enter (d : Descent) : d.enter.leave = d := by
  rw [enter, leave]
  simp

theorem leave_settle_enter (r : Reading α n) :
    ((d.enter.settle r).1, (d.enter.settle r).2.leave) = d.settle r := by
  cases r with
  | done value rest shorter => exact congrArg (Prod.mk (Except.ok value)) (leave_enter (d.moved rest))
  | stuck expected rest within => exact congrArg (Prod.mk _) (leave_enter (d.moved rest))

/-- A primary is read with the levels that the counter leaves, and leaves the counter as it was. -/
theorem follows_primary (d : Descent) : Follows d 7 primary (Grammar.primary d.parser.table d.levels) := by
  obtain ⟨levels, left⟩ : ∃ levels, d.levels = levels := ⟨_, rfl⟩
  rw [left]
  intro tokens frames enough
  obtain ⟨frames, rfl⟩ := Nat.exists_eq_add_one_of_ne_zero (by omega : frames ≠ 0)
  induction levels generalizing d tokens frames with
  | zero =>
    have full : d.parser.nesting ≤ d.depth := by
      unfold Descent.levels at left
      omega
    rw [primary]
    exact if_pos full
  | succ levels ih =>
    have free : ¬ d.parser.nesting ≤ d.depth := by
      unfold Descent.levels at left
      omega
    have fewer : d.enter.levels = levels := by
      unfold Descent.levels at left ⊢
      simp only [enter]
      omega
    have operands : Follows d.enter 7 primary (Grammar.primary d.parser.table levels) := by
      intro tokens frames enough
      obtain ⟨frames, rfl⟩ := Nat.exists_eq_add_one_of_ne_zero (by omega : frames ≠ 0)
      exact ih d.enter fewer tokens frames enough
    have ran : primaryForm frames (d.moved tokens).enter = _ :=
      follows_primaryForm (follows_expression operands) tokens frames (by omega)
    rw [primary]
    refine (if_neg free).trans ?_
    rw [ran]
    exact leave_settle_enter _

theorem bind_look (same : act e.look = act e) (next : α → Act β) : (act >>= next) e.look = (act >>= next) e := by
  rw [bind_eq, bind_eq, same]

theorem primaryForm_look (some : 1 ≤ frames) (e : Descent) : primaryForm frames e.look = primaryForm frames e := by
  obtain ⟨frames, rfl⟩ := Nat.exists_eq_add_one_of_ne_zero (by omega : frames ≠ 0)
  rw [primaryForm]
  exact bind_look rfl _

theorem primary_look (some : 2 ≤ frames) (e : Descent) : primary frames e.look = primary frames e := by
  obtain ⟨frames, rfl⟩ := Nat.exists_eq_add_one_of_ne_zero (by omega : frames ≠ 0)
  have inside : primaryForm frames e.look.enter = primaryForm frames e.enter := primaryForm_look (by omega) e.enter
  simp only [primary, inside]
  rfl

theorem expression_look (some : 3 ≤ frames) (e : Descent) : expression frames e.look = expression frames e := by
  obtain ⟨frames, rfl⟩ := Nat.exists_eq_add_one_of_ne_zero (by omega : frames ≠ 0)
  rw [expression]
  exact bind_look (primary_look (by omega) e) _

theorem climb_look (some : 1 ≤ frames) (least : Int) (lhs : Expr) (e : Descent) :
    climb frames least lhs e.look = climb frames least lhs e := by
  obtain ⟨frames, rfl⟩ := Nat.exists_eq_add_one_of_ne_zero (by omega : frames ≠ 0)
  rw [climb]
  exact bind_look rfl _

/-- What the method does from where the descent is. -/
theorem Follows.here (follows : Follows d more method reader) (looks : method frames d.look = method frames d)
    (enough : 8 * d.parser.ahead.length + more ≤ frames) : method frames d = d.settle (reader d.parser.ahead) := by
  rw [← looks]
  exact follows d.parser.ahead frames enough

theorem climb_here (operands : Follows d 7 primary operand) (least : Int) (lhs : Expr)
    (enough : 8 * d.parser.ahead.length + 8 ≤ frames) :
    climb frames least lhs d =
      d.settle ((links d.parser.table least operand [] d.parser.ahead (Nat.lt_succ_self _)).map (Chain.tree lhs)) := by
  rw [← climb_look (by omega)]
  exact climb_moved operands least lhs (Nat.lt_succ_self _) enough

/-- A descent from outside of all primaries. -/
def ofParser (p : Parser) : Descent := ⟨p, 0⟩

/-- What the parser makes of a call, with nothing counted. -/
def counting (made : Except Diagnostic α × Parser) : Except Unwinding α × Descent :=
  (made.1.mapError .refused, ofParser made.2)

theorem counting_settle (p : Parser) (r : Reading α n) : counting (p.look.settle r) = (ofParser p).settle r := by
  cases r <;> rfl

theorem follows_ofParser (p : Parser) : Follows (ofParser p) 7 primary (Grammar.primary p.table p.levels) := by
  have levels : (ofParser p).levels = p.levels := congrArg Int.toNat (Int.sub_zero p.nesting)
  rw [← levels]
  exact follows_primary (ofParser p)

theorem climb_eq (p : Parser) (least : Int) (lhs : Expr) (enough : 8 * p.ahead.length + 8 ≤ frames) :
    climb frames least lhs (ofParser p) = counting (p.continuation least lhs) := by
  rw [Parser.continuation, counting_settle]
  exact climb_here (follows_ofParser p) least lhs enough

theorem moved_inj : d.moved tokens = d.moved rest ↔ tokens = rest := by simp [moved]

theorem settle_eq_ok_iff {value : α} {r : Reading α n} :
    d.settle r = (.ok value, e) ↔ ∃ rest, r.Yields value rest ∧ e = d.moved rest := by
  cases r with
  | done value' rest shorter =>
    simp only [settle, Prod.mk.injEq, Except.ok.injEq, Reading.yields_done]
    constructor
    · intro h
      obtain ⟨rfl, rfl⟩ := h
      exact ⟨rest, ⟨rfl, rfl⟩, rfl⟩
    · intro h
      obtain ⟨_, ⟨rfl, rfl⟩, rfl⟩ := h
      exact ⟨rfl, rfl⟩
  | stuck expected rest within => simp [settle]

theorem Follows.ok_iff (follows : Follows d more method reader) {value : α} :
    Ends (method · (d.moved tokens)) (.ok value, e) ↔ ∃ rest, (reader tokens).Yields value rest ∧ e = d.moved rest := by
  rw [ends_iff ⟨_, follows tokens⟩, settle_eq_ok_iff]

theorem Follows.here_ok_iff (follows : Follows d more method reader)
    (looks : ∀ frames, more ≤ frames → method frames d.look = method frames d) {value : α} :
    Ends (method · d) (.ok value, e) ↔ ∃ rest, (reader d.parser.ahead).Yields value rest ∧ e = d.moved rest := by
  have ran (frames : Nat) (enough : 8 * d.parser.ahead.length + more ≤ frames) :=
    follows.here (looks frames (by omega)) enough
  rw [ends_iff ⟨_, ran⟩, settle_eq_ok_iff]

theorem run_iff_linked (operands : Follows d more primary operand) {least : Int} {found : List Link} :
    d.Run least tokens found rest ↔ Linked d.parser.table least operand tokens found rest := by
  constructor
  · intro run
    induction run with
    | stop ends => exact .stop ends
    | more joins reads _ ih =>
      obtain ⟨middle, yields, same⟩ := operands.ok_iff.mp reads
      obtain rfl := moved_inj.mp same
      exact .more joins yields ih
  · intro run
    induction run with
    | stop ends => exact .stop ends
    | more joins yields _ ih => exact .more joins (operands.ok_iff.mpr ⟨_, yields, rfl⟩) ih

/-- Taking operators that bind at least so tightly behind an operand succeeds just when a longest run of operators
and primaries can be read there, with the reference tree of this run as its result; an expression is a primary with
the run of all operators behind it. In the tree all operators and operands keep their order and group by precedence.
The loop with its inner calls comes to the same end as reading on in one pass. -/
theorem climbing_builds_reference (d d' : Descent) (lhs result : Expr) :
    (∀ least : Nat, Ends (climb · least lhs d) (.ok result, d') ↔
      ∃ links rest, d.Run least d.parser.ahead links rest ∧ d' = d.moved rest ∧
        result = Chain.reference lhs links) ∧
    (Ends (expression · d) (.ok result, d') ↔
      ∃ first middle links rest, Ends (primary · d) (.ok first, d.moved middle) ∧ d.Run 0 middle links rest ∧
        d' = d.moved rest ∧ result = Chain.reference first links) ∧
    (∀ links, Chain.Arranged (Chain.reference lhs links) lhs links) ∧
    ∀ (p : Parser) (least : Int), Ends (climb · least lhs (ofParser p)) (counting (p.continuation least lhs)) := by
  have operands := follows_primary d
  refine ⟨?_, ?_, Chain.arranged_reference lhs, fun p least => ⟨_, fun frames => climb_eq p least lhs⟩⟩
  · intro least
    rw [ends_iff ⟨_, fun frames => climb_here operands least lhs⟩, settle_eq_ok_iff]
    constructor
    · intro h
      obtain ⟨rest, yields, rfl⟩ := h
      obtain ⟨links, read, rfl⟩ := Reading.yields_map.mp yields
      obtain ⟨more, same, run⟩ := (yields_links_iff (Int.natCast_nonneg least) _).mp read
      obtain rfl : links = more := same
      exact ⟨links, rest, (run_iff_linked operands).mpr run, rfl, Chain.tree_eq_reference lhs links⟩
    · intro h
      obtain ⟨links, rest, run, rfl, rfl⟩ := h
      have linked := (run_iff_linked operands).mp run
      refine ⟨rest, Reading.yields_map.mpr ⟨links, ?_, Chain.tree_eq_reference lhs links⟩, rfl⟩
      exact (yields_links_iff (Int.natCast_nonneg least) _).mpr ⟨links, rfl, linked⟩
  · rw [(follows_expression operands).here_ok_iff fun frames enough => expression_look (by omega) d]
    have starts (first : Expr) (e : Descent) : Ends (primary · d) (.ok first, e) ↔ _ :=
      operands.here_ok_iff fun frames enough => primary_look (by omega) d
    constructor
    · intro h
      obtain ⟨rest, yields, rfl⟩ := h
      obtain ⟨first, middle, links, reads, linked, same⟩ := yields_chain_iff.mp yields
      have run := (run_iff_linked operands).mpr linked
      exact ⟨first, middle, links, rest, (starts _ _).mpr ⟨middle, reads, rfl⟩, run, rfl, same⟩
    · intro h
      obtain ⟨first, middle, links, rest, ran, run, rfl, same⟩ := h
      obtain ⟨_, reads, moves⟩ := (starts _ _).mp ran
      obtain rfl := moved_inj.mp moves
      have linked := (run_iff_linked operands).mp run
      exact ⟨rest, yields_chain_iff.mpr ⟨first, middle, links, reads, linked, same⟩, rfl⟩

example :
    let place (column : Int) : Option Location := some ⟨"run", 1, column⟩
    let product : Expr := .binary "*" (.var "y" (place 3)) (.var "z" (place 5)) (place 4)
    let difference : Expr := .binary "-" (.var "x" (place 1)) product (place 2)
    (expression 64 (ofParser (.ofText .standard 8 "run" "x-y*z-w"))).1.toOption =
      some (.binary "-" difference (.var "w" (place 7)) (place 6)) := by
  decide +kernel

end Descent
end Kaleidoscope
