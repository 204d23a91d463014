import Kaleidoscope.Proofs.Token.LongestMatch

/-! Layout between tokens. At the start of a text and behind any token there may stand more blanks, or one more
comment up to the end of its line, and the tokens say the same. -/
namespace Kaleidoscope

/-- Characters that separate tokens: blanks, or a comment with the line feed that ends it. -/
def IsSpacing (chars : List Char) : Prop :=
  (∀ c ∈ chars, isLayout c = true) ∨
    ∃ body, (∀ c ∈ body, endsComment c = false) ∧ chars = '#' :: (body ++ ['\n'])

/-- The offset is that of the start of the text or that behind the last character of a token. -/
def IsTokenBoundary (pieces : List Piece) (offset : Nat) : Prop :=
  offset = 0 ∨ ∃ last ∈ lastOffsets 0 pieces, offset = last + 1

variable {text back chars : List Char} {pieces front rest others : List Piece} {piece : Piece}

namespace Piece

theorem stops_of_isToken (token : piece.isToken = true) {c : Char} (blank : isLayout c = true ∨ c = '#') (text : List Char) :
    Stops piece.inside (c :: text) := by
  intro d first
  obtain rfl : c = d := by simpa using first
  have apart (other : isLayout c = false ∧ c ≠ '#') : False := by
    rcases blank with layout | hash
    · rw [other.1] at layout
      cases layout
    · exact other.2 hash
  cases piece with
  | layout _ | comment _ => cases token
  | word _ _ =>
    apply Bool.eq_false_iff.mpr
    intro inside
    rcases Bool.or_eq_true_iff.mp inside with letter | digit
    · exact apart (not_isLayout_of_isAlpha letter)
    · have numeral : isNumeral c = true := by simp [isNumeral, digit]
      obtain ⟨layout, hash, -⟩ := not_isLayout_of_isNumeral numeral
      exact apart ⟨layout, hash⟩
  | numeral _ _ =>
    apply Bool.eq_false_iff.mpr
    intro numeral
    obtain ⟨layout, hash, -⟩ := not_isLayout_of_isNumeral numeral
    exact apart ⟨layout, hash⟩
  | lone _ => rfl

end Piece

namespace LongestMatch

theorem of_stops (piece : Piece) (valid : piece.IsValid) (stops : Stops piece.inside text)
    (others : LongestMatch text pieces) : LongestMatch (piece.chars ++ text) (piece :: pieces) :=
  .more valid (valid.longest_iff.mpr stops) others

theorem chars_eq (division : LongestMatch text pieces) : text = pieces.flatMap Piece.chars := by
  induction division with
  | done => rfl
  | more _ _ _ ih => rw [List.flatMap_cons, ← ih]

theorem behind (division : LongestMatch text (front ++ rest)) :
    LongestMatch (rest.flatMap Piece.chars) rest := by
  induction front generalizing text with
  | nil => exact division.chars_eq ▸ division
  | cons piece front ih =>
    cases division with
    | more _ _ others => exact ih others

/-- Behind some of the pieces another text may stand, if the last of them is not longer then. -/
theorem splice (division : LongestMatch text (front ++ rest)) (division' : LongestMatch back others)
    (ends : ∀ piece ∈ front.getLast?, Stops piece.inside back) :
    LongestMatch (front.flatMap Piece.chars ++ back) (front ++ others) := by
  induction front generalizing text with
  | nil => exact division'
  | cons piece front ih =>
    cases division with
    | @more _ text _ valid longest behind =>
      cases front with
      | nil =>
        rw [List.flatMap_singleton]
        exact of_stops piece valid (ends piece rfl) division'
      | cons next front =>
        rw [List.getLast?_cons_cons] at ends
        rw [List.flatMap_cons, List.append_assoc, List.cons_append]
        refine of_stops piece valid ?_ (ih behind ends)
        obtain ⟨c, body, first⟩ := List.exists_cons_of_ne_nil next.chars_ne_nil
        have stops := valid.longest_iff.mp longest
        rw [behind.chars_eq] at stops
        simpa [Stops, first] using stops

end LongestMatch

/-- Spacing is divided into pieces that are no tokens, whatever stands behind it. -/
theorem IsSpacing.exists_longestMatch (spacing : IsSpacing chars) (division : LongestMatch back rest) :
    ∃ blanks, LongestMatch (chars ++ back) (blanks ++ rest) ∧ blanks.filterMap Piece.lexeme? = [] := by
  have layout {c : Char} {text : List Char} {pieces : List Piece} (blank : isLayout c = true)
      (division : LongestMatch text pieces) : LongestMatch (c :: text) (.layout c :: pieces) :=
    .of_stops (.layout c) blank (fun _ _ => rfl) division
  rcases spacing with blank | ⟨body, inside, rfl⟩
  · induction chars with
    | nil => exact ⟨[], division, rfl⟩
    | cons c chars ih =>
      obtain ⟨first, others⟩ := List.forall_mem_cons.mp blank
      obtain ⟨blanks, behind, none⟩ := ih others
      exact ⟨.layout c :: blanks, layout first behind, none⟩
  · have feed : LongestMatch ('\n' :: back) (.layout '\n' :: rest) := layout rfl division
    have stops : Stops (Piece.comment body).inside ('\n' :: back) := by
      simp [Stops, Piece.inside, endsComment]
    refine ⟨[.comment body, .layout '\n'], ?_, rfl⟩
    simpa [Piece.chars] using LongestMatch.of_stops (.comment body) inside stops feed

theorem exists_of_mem_lastOffsets {before last : Nat} (member : last ∈ lastOffsets before pieces) :
    ∃ front piece rest, pieces = front ++ piece :: rest ∧ piece.isToken = true ∧
      last + 1 = before + (front.flatMap Piece.chars).length + piece.chars.length := by
  induction pieces generalizing before with
  | nil => cases member
  | cons piece pieces ih =>
    rcases List.mem_append.mp member with here | later
    · split at here
      · next token =>
        have positive := List.length_pos_iff.mpr piece.chars_ne_nil
        refine ⟨[], piece, pieces, rfl, token, ?_⟩
        rw [List.mem_singleton.mp here, List.flatMap_nil, List.length_nil]
        omega
      · cases here
    · obtain ⟨front, piece', rest, rfl, token, offset⟩ := ih later
      refine ⟨piece :: front, piece', rest, rfl, token, ?_⟩
      rw [offset, List.flatMap_cons, List.length_append]
      omega

theorem IsTokenBoundary.exists_split {offset : Nat} (boundary : IsTokenBoundary pieces offset) :
    ∃ front rest, pieces = front ++ rest ∧ offset = (front.flatMap Piece.chars).length ∧
      ∀ piece ∈ front.getLast?, piece.isToken = true := by
  rcases boundary with rfl | ⟨last, member, rfl⟩
  · exact ⟨[], pieces, rfl, rfl, by simp⟩
  · obtain ⟨front, piece, rest, rfl, token, offset⟩ := exists_of_mem_lastOffsets member
    exact ⟨front ++ [piece], rest, by simp, by simp [offset], by simpa using token⟩

theorem filterMap_placed (file : String) (before : List Char) (pieces : List Piece) :
    (placed file before pieces).filterMap (fun (piece, place) => (piece.reported? place).map (·.1)) =
      pieces.filterMap Piece.lexeme? := by
  induction pieces generalizing before with
  | nil => rfl
  | cons piece pieces ih =>
    rw [placed, List.filterMap_cons, List.filterMap_cons, ih]
    cases lexeme : piece.lexeme? <;> simp [Piece.reported?, lexeme]

theorem lexemes_tokenize (file : String) {text : String} (division : LongestMatch text.toList pieces) :
    (tokenize file text).all.map (·.lexeme) = pieces.filterMap Piece.lexeme? ++ [.endOfInput] := by
  have said := congrArg (List.map (·.1)) (reported_tokenize file division)
  rw [List.map_map, List.map_filterMap] at said
  rw [TokenSequence.all, List.map_append, ← filterMap_placed file [] pieces]
  exact congrArg (· ++ [Lexeme.endOfInput]) said

theorem length_lastOffsets (file : String) {text : String} (division : LongestMatch text.toList pieces) :
    (lastOffsets 0 pieces).length = (tokenize file text).tokens.length := by
  have each (before : Nat) (pieces : List Piece) :
      (lastOffsets before pieces).length = (pieces.filterMap Piece.lexeme?).length := by
    induction pieces generalizing before with
    | nil => rfl
    | cons piece pieces ih =>
      rw [lastOffsets, List.length_append, ih, List.filterMap_cons, Piece.isToken]
      cases piece.lexeme? <;> simp [Nat.add_comm]
  have said := congrArg List.length (lexemes_tokenize file division)
  rw [TokenSequence.all, List.length_map, List.length_append, List.length_append] at said
  rw [each]
  exact (Nat.add_right_cancel said).symm

/-- Spacing between tokens changes no token. -/
theorem lexemes_tokenize_spacing (file file' : String) {text : String}
    (division : LongestMatch text.toList pieces) {offset : Nat} (boundary : IsTokenBoundary pieces offset)
    (spacing : IsSpacing chars) :
    (tokenize file' (String.ofList (text.toList.take offset ++ chars ++ text.toList.drop offset))).all.map (·.lexeme) =
      (tokenize file text).all.map (·.lexeme) := by
  obtain ⟨front, rest, rfl, rfl, last⟩ := boundary.exists_split
  have whole : text.toList = front.flatMap Piece.chars ++ rest.flatMap Piece.chars := by
    rw [division.chars_eq, List.flatMap_append]
  have said {chars : List Char} {pieces : List Piece} (division : LongestMatch chars pieces) :
      (tokenize file' (String.ofList chars)).all.map (·.lexeme) =
        pieces.filterMap Piece.lexeme? ++ [.endOfInput] :=
    lexemes_tokenize file' (by rwa [String.toList_ofList])
  rw [lexemes_tokenize file division, whole, List.take_left, List.drop_left, List.append_assoc]
  cases chars with
  | nil => exact said (whole ▸ division)
  | cons c chars =>
    have blank : isLayout c = true ∨ c = '#' := by
      rcases spacing with blank | ⟨body, -, same⟩
      · exact .inl (blank c List.mem_cons_self)
      · exact .inr (List.cons.inj same).1
    obtain ⟨blanks, behind, none⟩ := spacing.exists_longestMatch division.behind
    have ends : ∀ piece ∈ front.getLast?, Stops piece.inside (c :: chars ++ rest.flatMap Piece.chars) :=
      fun piece member => piece.stops_of_isToken (last piece member) blank _
    rw [said (division.splice behind ends), List.filterMap_append, List.filterMap_append, none,
      List.nil_append, ← List.filterMap_append]

end Kaleidoscope
