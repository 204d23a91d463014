import Kaleidoscope.Grammar.Entity

/-! Readings without their bounds. A reading either yields a value with the tokens behind it or fails at
the tokens from the one that does not fit on; each way of combining readers is described by these two. -/
namespace Kaleidoscope

namespace Reading

variable {α β : Type} {m n : Nat}

def Yields (r : Reading α n) (value : α) (rest : List Token) : Prop :=
  ∃ shorter, r = .done value rest shorter

def Fails (r : Reading α n) (expected : Expectation) (rest : List Token) : Prop :=
  ∃ within, r = .stuck expected rest within

theorem yields_or_fails (r : Reading α n) :
    (∃ value rest, r.Yields value rest) ∨ ∃ expected rest, r.Fails expected rest := by
  cases r with
  | done value rest shorter => exact .inl ⟨value, rest, shorter, rfl⟩
  | stuck expected rest within => exact .inr ⟨expected, rest, within, rfl⟩

@[simp] theorem yields_done {value value' : α} {rest rest' : List Token} (h : rest.length < n) :
    (Reading.done value rest h).Yields value' rest' ↔ value = value' ∧ rest = rest' := by
  simp only [Yields, done.injEq]
  exact ⟨fun ⟨_, same⟩ => same, fun same => ⟨same.2 ▸ h, same⟩⟩

@[simp] theorem yields_stuck {value : α} {expected : Expectation} {rest rest' : List Token}
    (h : rest.length ≤ n) : ¬ (Reading.stuck expected rest h).Yields value rest' := by
  simp [Yields]

@[simp] theorem fails_done {value : α} {expected : Expectation} {rest rest' : List Token}
    (h : rest.length < n) : ¬ (Reading.done value rest h).Fails expected rest' := by
  simp [Fails]

@[simp] theorem fails_stuck {expected expected' : Expectation} {rest rest' : List Token}
    (h : rest.length ≤ n) :
    (Reading.stuck expected rest h : Reading α n).Fails expected' rest' ↔
      expected = expected' ∧ rest = rest' := by
  simp only [Fails, stuck.injEq]
  exact ⟨fun ⟨_, same⟩ => same, fun same => ⟨same.2 ▸ h, same⟩⟩

@[simp] theorem yields_stuckAt {value : α} {expected : Expectation} {tokens rest : List Token} :
    ¬ (stuckAt expected tokens).Yields value rest := yields_stuck _

@[simp] theorem fails_stuckAt {expected expected' : Expectation} {tokens rest : List Token} :
    (stuckAt expected tokens : Reading α tokens.length).Fails expected' rest ↔
      expected = expected' ∧ tokens = rest := fails_stuck _

theorem Yields.unique {r : Reading α n} {value value' : α} {rest rest' : List Token}
    (h : r.Yields value rest) (h' : r.Yields value' rest') : value = value' ∧ rest = rest' := by
  obtain ⟨shorter, rfl⟩ := h
  simpa using h'

theorem Fails.unique {r : Reading α n} {expected expected' : Expectation} {rest rest' : List Token}
    (h : r.Fails expected rest) (h' : r.Fails expected' rest') : expected = expected' ∧ rest = rest' := by
  obtain ⟨within, rfl⟩ := h
  simpa using h'

theorem Yields.shorter {r : Reading α n} {value : α} {rest : List Token} (h : r.Yields value rest) :
    rest.length < n := h.1

theorem Yields.not_fails {r : Reading α n} {value : α} {expected : Expectation} {rest rest' : List Token}
    (h : r.Yields value rest) : ¬ r.Fails expected rest' := by
  obtain ⟨shorter, rfl⟩ := h
  simp

@[simp] theorem yields_weaken {r : Reading α m} (h : m ≤ n) {value : α} {rest : List Token} :
    (r.weaken h).Yields value rest ↔ r.Yields value rest := by
  cases r <;> simp [weaken]

@[simp] theorem fails_weaken {r : Reading α m} (h : m ≤ n) {expected : Expectation} {rest : List Token} :
    (r.weaken h).Fails expected rest ↔ r.Fails expected rest := by
  cases r <;> simp [weaken]

@[simp] theorem yields_map {f : α → β} {r : Reading α n} {value : β} {rest : List Token} :
    (r.map f).Yields value rest ↔ ∃ part, r.Yields part rest ∧ f part = value := by
  cases r with
  | done part after shorter =>
    simp only [map, yields_done]
    constructor
    · intro h
      obtain ⟨rfl, rfl⟩ := h
      exact ⟨part, ⟨rfl, rfl⟩, rfl⟩
    · intro h
      obtain ⟨_, ⟨rfl, rfl⟩, rfl⟩ := h
      exact ⟨rfl, rfl⟩
  | stuck expected after within => simp [map]

@[simp] theorem fails_map {f : α → β} {r : Reading α n} {expected : Expectation} {rest : List Token} :
    (r.map f).Fails expected rest ↔ r.Fails expected rest := by
  cases r <;> simp [map]

@[simp] theorem yields_andThen {r : Reading α n} {next : (value : α) → Reader β} {value : β}
    {rest : List Token} :
    (r.andThen next).Yields value rest ↔
      ∃ part middle, r.Yields part middle ∧ (next part middle).Yields value rest := by
  cases r with
  | done part after shorter =>
    simp only [andThen, yields_weaken, yields_done]
    constructor
    · intro h
      exact ⟨part, after, ⟨rfl, rfl⟩, h⟩
    · intro k
      obtain ⟨_, _, ⟨rfl, rfl⟩, h⟩ := k
      exact h
  | stuck expected after within => simp [andThen]

@[simp] theorem fails_andThen {r : Reading α n} {next : (value : α) → Reader β} {expected : Expectation}
    {rest : List Token} :
    (r.andThen next).Fails expected rest ↔ r.Fails expected rest ∨
      ∃ part middle, r.Yields part middle ∧ (next part middle).Fails expected rest := by
  cases r with
  | done part after shorter =>
    simp only [andThen, fails_weaken, fails_done, yields_done, false_or]
    constructor
    · intro h
      exact ⟨part, after, ⟨rfl, rfl⟩, h⟩
    · intro k
      obtain ⟨_, _, ⟨rfl, rfl⟩, h⟩ := k
      exact h
  | stuck expected after within => simp [andThen]

end Reading

namespace Token

theorem isChar_iff {token : Token} {c : Char} : token.isChar c = true ↔ token.lexeme = .character c :=
  beq_iff_eq

end Token

@[simp] theorem yields_expectChar {c : Char} {expected : Expectation} {tokens rest : List Token} {u : Unit} :
    (expectChar c expected tokens).Yields u rest ↔ ∃ token, tokens = token :: rest ∧ token.isChar c = true := by
  cases tokens with
  | nil => simp [expectChar]
  | cons token behind =>
    by_cases h : token.isChar c = true
    · simp only [expectChar, h, if_true, Reading.yields_done, List.cons.injEq]
      constructor
      · intro k
        obtain ⟨-, rfl⟩ := k
        exact ⟨token, ⟨rfl, rfl⟩, h⟩
      · intro k
        obtain ⟨_, ⟨_, same⟩, _⟩ := k
        exact ⟨trivial, same⟩
    · simp [expectChar, h]

end Kaleidoscope
