import Kaleidoscope.Proofs.Token.Streaming
import Mathlib.Data.List.DropRight

/-! The lines of a text while it is read. The place behind some characters tells the line they end in and how much of
it they are; a line that is quoted when one character more has been asked for is this much of the line and, if it does
not end there, that character. -/
namespace Kaleidoscope

/-- What has been read of the line that these characters end in. -/
def lineStart (read : List Char) : List Char := (read.reverse.takeWhile (· ≠ '\n')).reverse

variable {read chars behind : List Char}

theorem length_lineStart (read : List Char) : (lineStart read).length = (read.reverse.takeWhile (· ≠ '\n')).length :=
  List.length_reverse

theorem lineStart_append (one : '\n' ∉ chars) : lineStart (read ++ chars) = lineStart read ++ chars := by
  have all : ∀ c ∈ chars.reverse, decide (c ≠ '\n') = true := by
    intro c member
    rw [decide_eq_true_eq]
    rintro rfl
    exact one (List.mem_reverse.mp member)
  rw [lineStart, List.reverse_append, List.takeWhile_append_of_pos all, List.reverse_append, List.reverse_reverse,
    lineStart]

theorem lineStart_feed (read : List Char) : lineStart (read ++ ['\n']) = [] := by
  simp [lineStart]

theorem lineStart_cases (read : List Char) :
    '\n' ∉ lineStart read ∧ (read = lineStart read ∨ ∃ front, read = front ++ '\n' :: lineStart read) := by
  induction read using List.reverseRecOn with
  | nil => exact ⟨by simp [lineStart], .inl rfl⟩
  | append_singleton read c ih =>
    by_cases feed : c = '\n'
    · rw [feed, lineStart_feed]
      exact ⟨List.not_mem_nil, .inr ⟨read, rfl⟩⟩
    · have one : '\n' ∉ [c] := by simpa [eq_comm] using feed
      rw [lineStart_append one]
      refine ⟨List.not_mem_append ih.1 one, ih.2.imp (congrArg (· ++ [c])) ?_⟩
      rintro ⟨front, same⟩
      refine ⟨front, ?_⟩
      conv_lhs => rw [same]
      simp

theorem length_splitOn (text : List Char) : (text.splitOn '\n').length = text.count '\n' + 1 := by
  induction text with
  | nil => rfl
  | cons c text ih =>
    rw [List.splitOn_cons_eq_if_modifyHead, List.count_cons]
    split <;> simp [ih]

theorem head?_splitOn (text : List Char) : (text.splitOn '\n').head? = some (text.takeWhile (· ≠ '\n')) := by
  induction text with
  | nil => rfl
  | cons c text ih =>
    rw [List.splitOn_cons_eq_if_modifyHead]
    by_cases feed : c = '\n'
    · simp [feed]
    · simp [feed, ih]

/-- So many line feeds before a place, so many lines before the one that it is in. -/
theorem getElem?_splitOn (read behind : List Char) :
    ((read ++ behind).splitOn '\n')[read.count '\n']? = some (lineStart read ++ behind.takeWhile (· ≠ '\n')) := by
  obtain ⟨one, start⟩ := lineStart_cases read
  have first : ((lineStart read ++ behind).splitOn '\n')[0]? = some (lineStart read ++ behind.takeWhile (· ≠ '\n')) := by
    have all : ∀ c ∈ lineStart read, decide (c ≠ '\n') = true := by
      intro c member
      rw [decide_eq_true_eq]
      rintro rfl
      exact one member
    rw [← List.head?_eq_getElem?, head?_splitOn, List.takeWhile_append_of_pos all]
  rcases start with whole | ⟨front, split⟩
  · have none : read.count '\n' = 0 := List.count_eq_zero.mpr (whole ▸ one)
    rw [none, ← first, ← whole]
  · have counted : read.count '\n' = (front.splitOn '\n').length := by
      conv_lhs => rw [split]
      rw [List.count_append, List.count_cons_self, List.count_eq_zero.mpr one, length_splitOn]
    have lines : (read ++ behind).splitOn '\n' = front.splitOn '\n' ++ (lineStart read ++ behind).splitOn '\n' := by
      conv_lhs => rw [split]
      rw [List.append_assoc, List.cons_append, List.splitOn_append_cons_self]
    rw [counted, lines, List.getElem?_append_right (Nat.le_refl _), Nat.sub_self, first]

namespace Window

theorem current_foldl_read (read : List Char) : (read.foldl Window.read start).current = (lineStart read).reverse := by
  induction read using List.reverseRecOn with
  | nil => rfl
  | append_singleton read c ih =>
    rw [List.foldl_append, List.foldl_cons, List.foldl_nil]
    by_cases feed : c = '\n'
    · rw [feed, lineStart_feed, Window.read, if_pos rfl]
      rfl
    · have one : '\n' ∉ [c] := by simpa [eq_comm] using feed
      rw [lineStart_append one, Window.read, if_neg feed, List.reverse_append, ← ih]
      rfl

theorem quotable_reverse (line : List Char) : quotable line.reverse = String.ofList (line.rdropWhile (· == '\r')) := rfl

/-- When one more character has been asked for, the line that was being read is still kept. -/
theorem line?_peek (read behind : List Char) :
    ((read.foldl Window.read start).peek behind).line? (1 + read.count '\n' : Nat) =
      some (String.ofList ((lineStart read ++ (behind.takeWhile (· ≠ '\n')).take 1).rdropWhile (· == '\r'))) := by
  have line := (isBehind_start.foldl read).line
  have current := current_foldl_read read
  rw [List.nil_append] at line
  generalize read.foldl Window.read start = w at line current
  rw [← quotable_reverse]
  cases behind with
  | nil =>
    have same : ((1 + read.count '\n' : Nat) : Int) = w.close.line := congrArg Nat.cast line.symm
    rw [peek, line?, if_pos same, close, current]
    simp
  | cons c behind =>
    rw [peek]
    by_cases feed : c = '\n'
    · have other : ((1 + read.count '\n' : Nat) : Int) ≠ (w.read c).line := by
        simp only [Window.read, feed, if_true, line]
        omega
      have before : ((1 + read.count '\n' : Nat) : Int) + 1 = (w.read c).line := by
        simp [Window.read, feed, line]
      rw [line?, if_neg other, if_pos before, Window.read, if_pos feed]
      simp [feed, current]
    · have same : ((1 + read.count '\n' : Nat) : Int) = (w.read c).line := by
        simp [Window.read, feed, line]
      rw [line?, if_pos same, Window.read, if_neg feed]
      simp [feed, current]

end Window

end Kaleidoscope
