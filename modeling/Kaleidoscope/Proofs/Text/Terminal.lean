import Mathlib.Data.List.Infix

/-! Texts in which no control sequence starts. Nowhere in them does an escape character come right before a bracket, and
texts that do not begin with a bracket can be put together without such a place coming about. -/
namespace Kaleidoscope.Text.Terminal

variable {text front back separator : List Char} {texts : List (List Char)}

/-- What control sequences start with. -/
def introducer : List Char := ['\x1B', '[']

/-- Nowhere in the text does a control sequence start, nor does one where it follows another such text. -/
structure Inert (text : List Char) : Prop where
  free : ¬ introducer <:+: text
  head : text.head? ≠ some '['

theorem inert_of_notMem (absent : '[' ∉ text) : Inert text where
  free inside := absent (inside.subset (by simp [introducer]))
  head same := absent (List.mem_of_mem_head? same)

theorem Inert.append (h : Inert front) (k : Inert back) : Inert (front ++ back) where
  free := by
    rintro ⟨before, behind, same⟩
    rw [List.append_assoc, List.append_eq_append_iff] at same
    rcases same with ⟨more, rfl, rest⟩ | ⟨more, rfl, rest⟩
    -- The sequence starts in the first text, and its bracket may be the head of the second one.
    · match more with
      | [] => exact k.free ⟨[], behind, by simpa using rest⟩
      | [escape] =>
        rw [introducer, List.cons_append, List.singleton_append, List.cons_append, List.nil_append] at rest
        exact k.head (by rw [← (List.cons.inj rest).2]; rfl)
      | escape :: bracket :: more =>
        obtain ⟨rfl, rfl, -⟩ : '\x1B' = escape ∧ '[' = bracket ∧ behind = more ++ back := by simpa [introducer] using rest
        exact h.free ⟨before, more, by simp [introducer]⟩
    · exact k.free ⟨more, behind, by rw [rest, List.append_assoc]⟩
  head := by
    cases front with
    | nil => exact k.head
    | cons c rest => exact h.head

theorem Inert.intercalate (between : Inert separator) (each : ∀ text ∈ texts, Inert text) :
    Inert (separator.intercalate texts) := by
  induction texts with
  | nil => exact inert_of_notMem (by simp)
  | cons text texts ih =>
    obtain ⟨here, others⟩ := List.forall_mem_cons.mp each
    cases texts with
    | nil => simpa using here
    | cons next texts =>
      rw [List.intercalate_cons_cons]
      exact (here.append between).append (ih others)

/-- A bracket does no harm behind a space. -/
theorem inert_space_cons (c : Char) : Inert [' ', c] where
  free inside := by
    have same : introducer = [' ', c] := inside.eq_of_length rfl
    exact absurd (List.cons.inj same).1 (by decide)
  head := by simp

end Kaleidoscope.Text.Terminal
