import Kaleidoscope.Grammar.Parser
import Kaleidoscope.Proofs.Grammar.Precedence
import Kaleidoscope.Proofs.Grammar.Reading
import Kaleidoscope.Proofs.Operator.Table

/-! The operators and operands behind an operand are the longest run of such pairs whose operators bind
tightly enough, and what is built from them is the reference tree of the chain. -/
namespace Kaleidoscope

namespace Grammar

def Joins (table : OperatorTable) (least : Int) (token : Token) : Prop :=
  0 < table.precedence token.lexeme ∧ least ≤ table.precedence token.lexeme

theorem joins_zero_iff {table : OperatorTable} {token : Token} :
    Joins table 0 token ↔ 0 < table.precedence token.lexeme :=
  ⟨And.left, fun operator => ⟨operator, Int.le_of_lt operator⟩⟩

theorem precedence_lt_iff {table : OperatorTable} {least : Int} (h : 0 ≤ least) {token : Token} :
    table.precedence token.lexeme < least ↔ ¬ Joins table least token := by
  rcases table.precedence_cases token.lexeme with none | positive
  · simp [Joins, none]
    omega
  · simp [Joins, positive]

theorem joins_of_not_lt {table : OperatorTable} {least : Int} (h : 0 ≤ least) {token : Token}
    (tight : ¬ table.precedence token.lexeme < least) : Joins table least token :=
  Classical.not_not.mp fun none => tight ((precedence_lt_iff h).mpr none)

/-- The longest run of joining tokens, each with an operand behind it, from the front of the tokens on. -/
inductive Linked (table : OperatorTable) (least : Int) (operand : Reader Expr) :
    List Token → List Link → List Token → Prop where
  | stop (ends : ∀ token ∈ tokens.head?, ¬ Joins table least token) :
      Linked table least operand tokens [] tokens
  | more (joins : Joins table least op) (reads : (operand behind).Yields value middle)
      (run : Linked table least operand middle found rest) :
      Linked table least operand (op :: behind) (⟨op, table.precedence op.lexeme, value⟩ :: found) rest

theorem linked_stop_iff {table : OperatorTable} {least : Int} {operand : Reader Expr}
    {tokens rest : List Token} {found : List Link}
    (ends : ∀ token ∈ tokens.head?, ¬ Joins table least token) :
    Linked table least operand tokens found rest ↔ found = [] ∧ tokens = rest := by
  constructor
  · intro run
    cases run with
    | stop _ => exact ⟨rfl, rfl⟩
    | more joins _ _ => exact absurd joins (ends _ rfl)
  · intro h
    obtain ⟨rfl, rfl⟩ := h
    exact .stop ends

theorem linked_more_iff {table : OperatorTable} {least : Int} {operand : Reader Expr} {op : Token}
    {behind middle rest : List Token} {value : Expr} {found : List Link} (joins : Joins table least op)
    (reads : (operand behind).Yields value middle) :
    Linked table least operand (op :: behind) found rest ↔
      ∃ more, found = ⟨op, table.precedence op.lexeme, value⟩ :: more ∧
        Linked table least operand middle more rest := by
  constructor
  · intro run
    cases run with
    | stop ends => exact absurd joins (ends _ rfl)
    | more _ reads' run =>
      obtain ⟨rfl, rfl⟩ := reads.unique reads'
      exact ⟨_, rfl, run⟩
  · intro h
    obtain ⟨more, rfl, run⟩ := h
    exact .more joins reads run

theorem yields_links_iff {table : OperatorTable} {least : Int} (h : 0 ≤ least) {operand : Reader Expr}
    {found result : List Link} {tokens rest : List Token} {n : Nat} (bound : tokens.length < n) :
    (links table least operand found tokens bound).Yields result rest ↔
      ∃ more, result = found.reverse ++ more ∧ Linked table least operand tokens more rest := by
  fun_induction links table least operand found tokens bound with
  | case1 found bound _ =>
    have ends : ∀ token ∈ ([] : List Token).head?, ¬ Joins table least token := by simp
    simp only [Reading.yields_done, linked_stop_iff ends]
    constructor
    · intro k
      obtain ⟨rfl, rfl⟩ := k
      exact ⟨[], by simp, rfl, rfl⟩
    · intro k
      obtain ⟨_, rfl, rfl, rfl⟩ := k
      simp
  | case2 found bound tight =>
    rw [OperatorTable.precedence_endOfInput] at tight
    omega
  | case3 found op behind bound precedence loose =>
    have ends : ∀ token ∈ (op :: behind).head?, ¬ Joins table least token := by
      simpa using (precedence_lt_iff h).mp loose
    simp only [Reading.yields_done, linked_stop_iff ends]
    constructor
    · intro k
      obtain ⟨rfl, rfl⟩ := k
      exact ⟨[], by simp, rfl, rfl⟩
    · intro k
      obtain ⟨_, rfl, rfl, rfl⟩ := k
      simp
  | case4 found op behind bound precedence tight expected stuckAt within failed =>
    simp only [Reading.yields_stuck, false_iff]
    intro k
    obtain ⟨more, -, run⟩ := k
    cases run with
    | stop ends => exact tight ((precedence_lt_iff h).mpr (ends op rfl))
    | more _ reads _ => simp [failed] at reads
  | case5 found op behind bound precedence tight value middle shorter read _ ih =>
    have joins : Joins table least op := joins_of_not_lt h tight
    have reads : (operand behind).Yields value middle := ⟨shorter, read⟩
    rw [ih]
    constructor
    · intro k
      obtain ⟨more, rfl, run⟩ := k
      exact ⟨_ :: more, by simp [precedence], .more joins reads run⟩
    · intro k
      obtain ⟨more, rfl, run⟩ := k
      obtain ⟨later, rfl, tail⟩ := (linked_more_iff joins reads).mp run
      exact ⟨later, by simp [precedence], tail⟩

/-- A run of pairs that breaks off because an operand cannot be read. -/
inductive Breaks (table : OperatorTable) (least : Int) (operand : Reader Expr) :
    List Token → Expectation → List Token → Prop where
  | here (joins : Joins table least op) (fails : (operand behind).Fails expected rest) :
      Breaks table least operand (op :: behind) expected rest
  | later (joins : Joins table least op) (reads : (operand behind).Yields value middle)
      (breaks : Breaks table least operand middle expected rest) :
      Breaks table least operand (op :: behind) expected rest

theorem fails_links_iff {table : OperatorTable} {least : Int} (h : 0 ≤ least) {operand : Reader Expr}
    {found : List Link} {tokens rest : List Token} {expected : Expectation} {n : Nat}
    (bound : tokens.length < n) :
    (links table least operand found tokens bound).Fails expected rest ↔
      Breaks table least operand tokens expected rest := by
  fun_induction links table least operand found tokens bound with
  | case1 found bound _ =>
    simp only [Reading.fails_done, false_iff]
    intro breaks
    cases breaks
  | case2 found bound tight =>
    rw [OperatorTable.precedence_endOfInput] at tight
    omega
  | case3 found op behind bound precedence loose =>
    simp only [Reading.fails_done, false_iff]
    have ends := (precedence_lt_iff h).mp loose
    intro breaks
    cases breaks with
    | here joins _ => exact ends joins
    | later joins _ _ => exact ends joins
  | case4 found op behind bound precedence tight expected stuckAt within failed =>
    have joins : Joins table least op := joins_of_not_lt h tight
    constructor
    · intro fails
      exact .here joins (by simpa [failed] using fails)
    · intro breaks
      cases breaks with
      | here _ fails => simpa [failed] using fails
      | later _ reads _ => simp [failed] at reads
  | case5 found op behind bound precedence tight value middle shorter read _ ih =>
    have joins : Joins table least op := joins_of_not_lt h tight
    have reads : (operand behind).Yields value middle := ⟨shorter, read⟩
    rw [ih]
    constructor
    · exact .later joins reads
    · intro breaks
      cases breaks with
      | here _ fails => exact (reads.not_fails fails).elim
      | later _ reads' breaks =>
        obtain ⟨rfl, rfl⟩ := reads.unique reads'
        exact breaks

theorem yields_chain_iff {table : OperatorTable} {operand : Reader Expr} {tokens rest : List Token}
    {value : Expr} :
    (chain table operand tokens).Yields value rest ↔
      ∃ first middle found, (operand tokens).Yields first middle ∧
        Linked table 0 operand middle found rest ∧ value = Chain.reference first found := by
  unfold chain
  cases read : operand tokens with
  | stuck expected stuckAt within => simp
  | done first middle shorter =>
    simp only [Reading.yields_map, Reading.yields_done]
    constructor
    · intro h
      obtain ⟨found, reads, rfl⟩ := h
      obtain ⟨more, same, run⟩ := (yields_links_iff (Int.le_refl 0) _).mp reads
      obtain rfl : found = more := same
      exact ⟨first, middle, found, ⟨rfl, rfl⟩, run, Chain.tree_eq_reference first found⟩
    · intro h
      obtain ⟨_, _, found, ⟨rfl, rfl⟩, run, rfl⟩ := h
      exact ⟨found, (yields_links_iff (Int.le_refl 0) _).mpr ⟨found, rfl, run⟩,
        Chain.tree_eq_reference first found⟩

theorem fails_chain_iff {table : OperatorTable} {operand : Reader Expr} {tokens rest : List Token}
    {expected : Expectation} :
    (chain table operand tokens).Fails expected rest ↔
      (operand tokens).Fails expected rest ∨
        ∃ first middle, (operand tokens).Yields first middle ∧
          Breaks table 0 operand middle expected rest := by
  unfold chain
  cases read : operand tokens with
  | stuck expected stuckAt within => simp
  | done first middle shorter =>
    simp only [Reading.fails_map, Reading.fails_done, false_or, Reading.yields_done,
      fails_links_iff (Int.le_refl 0)]
    constructor
    · intro breaks
      exact ⟨first, middle, ⟨rfl, rfl⟩, breaks⟩
    · intro h
      obtain ⟨_, _, ⟨rfl, rfl⟩, breaks⟩ := h
      exact breaks

end Grammar

namespace Parser

theorem settle_eq_ok_iff {α : Type} {n : Nat} {p q : Parser} {r : Reading α n} {value : α} :
    p.settle r = (.ok value, q) ↔ ∃ rest, r.Yields value rest ∧ q = { p with ahead := rest } := by
  cases r with
  | done value' rest shorter =>
    simp only [settle, Prod.mk.injEq, Except.ok.injEq, Reading.yields_done]
    constructor
    · intro h
      obtain ⟨rfl, rfl⟩ := h
      exact ⟨rest, ⟨rfl, rfl⟩, rfl⟩
    · intro h
      obtain ⟨_, ⟨rfl, rfl⟩, rfl⟩ := h
      exact ⟨rfl, rfl⟩
  | stuck expected rest within => simp [settle]

end Parser
end Kaleidoscope
