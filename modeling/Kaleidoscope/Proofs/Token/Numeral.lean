import Kaleidoscope.Proofs.Token.Streaming
import Kaleidoscope.Tree.Spelling

/-! Numbers spelt into a text. The digits of a number are one numeral wherever neither a digit nor a point follows
them, and this numeral is read as the very same number. -/
namespace Kaleidoscope

variable {x : Double} {text : List Char}

namespace Literal

theorem Spells.isNumeral (spells : Spells text x) : ∀ c ∈ text, isNumeral c = true := by
  intro c member
  simpa [Kaleidoscope.isNumeral] using spells.digit_or_point c member

theorem Spells.numeralToken_eq (spells : Spells text x) : numeralToken text = (.number x, none) := by
  obtain ⟨value, exact⟩ := spells.value_eq
  simp [numeralToken, value, exact]

theorem Spells.exists_piece (spells : Spells text x) : ∃ first body, text = first :: body ∧
    (Piece.numeral first body).IsValid := by
  obtain ⟨first, body, rfl, -⟩ := spells.head_isDigit
  obtain ⟨numeral, others⟩ := List.forall_mem_cons.mp spells.isNumeral
  exact ⟨first, body, rfl, numeral, others⟩

end Literal

/-- The token of digits that spell a number at the start of a text. -/
def spelledToken (file : String) (x : Double) (text rest : List Char) : Token :=
  ⟨.number x, ⟨file, 1, 1⟩, (text.foldl Window.read .start).peek rest, none⟩

section Front

variable {rest : List Char}

theorem Piece.token?_of_spells {first : Char} {body : List Char} (spells : Literal.Spells (first :: body) x)
    (place : Location) (window : Window) :
    (Piece.numeral first body).token? place window = some ⟨.number x, place, window, none⟩ := by
  simp [token?, spells.numeralToken_eq]

/-- A lexer on a text with these digits in front takes them, and no more, for the number. -/
theorem Lexer.next_of_spells (file : String) (spells : Literal.Spells text x) (ends : Stops isNumeral rest) :
    (before file .start (text ++ rest) 0 []).next =
      (spelledToken file x text rest, before file (text.foldl Window.read .start) rest text.length []) := by
  obtain ⟨first, body, rfl, valid⟩ := spells.exists_piece
  have next := next_piece file .start valid ends 0 []
  rw [Piece.token?_of_spells spells, Nat.zero_add] at next
  exact next

theorem tokens_tokenize (file : String) {text : String} {chars : List Char} (same : text.toList = chars) :
    (tokenize file text).tokens =
      Scan.tokens file (chars.foldl Window.read .start).close [] (Scan.sitesOf .start chars) := by
  subst same
  rw [tokenize, SitedText.ending_ofText]
  rfl

theorem tokenize_of_spells (file : String) {text rest : String} (spells : Literal.Spells text.toList x)
    (ends : Stops isNumeral rest.toList) :
    ∃ behind, (tokenize file (text ++ rest)).tokens = spelledToken file x text.toList rest.toList :: behind ∧
      behind.map (fun token => (token.lexeme, token.misspelling)) =
        (tokenize file rest).tokens.map fun token => (token.lexeme, token.misspelling) := by
  obtain ⟨first, body, chars, valid⟩ := spells.exists_piece
  have whole : (text ++ rest).toList = (Piece.numeral first body).chars ++ rest.toList := by
    rw [String.toList_append, chars]
    rfl
  have said : (tokenize file (text ++ rest)).tokens.map (fun token => (token.lexeme, token.misspelling)) =
      numeralToken (first :: body) ::
        (tokenize file rest).tokens.map fun token => (token.lexeme, token.misspelling) := by
    rw [tokenize_eq_iff, whole]
    exact .numeral valid.1 valid.2 ends (tokenize_eq_iff.mp rfl)
  have found := (tokens_tokenize file whole).trans (Scan.tokens_piece valid ends rfl)
  rw [chars] at spells ⊢
  rw [Piece.token?_of_spells spells, Option.toList_some, List.singleton_append] at found
  rw [found] at said
  exact ⟨_, found, (List.cons.inj said).2⟩

end Front

/-- Every finite number without a sign is spelt by digits, with at most one point among them and then a digit behind
it. The whole of this is read as the same number, bit for bit; and in front of any text that does not go on with a
digit or a point it is one token, which is this number and gives no warning. All other numbers have no spelling. -/
theorem spelling_reads_back (x : Double) :
    (x.isNegative = false ∧ x.isFinite = true → ∃ text, x.spelling = .ok text ∧
      (∃ whole part, text.toList = Literal.written whole part ∧ whole ≠ [] ∧
        ∀ c ∈ whole ++ part, c.isDigit = true) ∧
      (Literal.ofText text.toList).value = x ∧ (Literal.ofText text.toList).isExact = true ∧
      ∀ file rest : String, Stops isNumeral rest.toList →
        let (token, lexer) := (Lexer.start file (text ++ rest)).next
        token.lexeme = .number x ∧ token.location = ⟨file, 1, 1⟩ ∧
          lexer.held = rest.toList.head? ∧ lexer.warnings = [] ∧
          ∃ behind, (tokenize file (text ++ rest)).tokens = token :: behind ∧
            behind.map (fun token => (token.lexeme, token.misspelling)) =
              (tokenize file rest).tokens.map fun token => (token.lexeme, token.misspelling)) ∧
    (¬ (x.isNegative = false ∧ x.isFinite = true) → x.spelling = .error ⟨x⟩) := by
  rw [← Double.isSome_spelling?_iff]
  constructor
  · intro has
    obtain ⟨text, spelt⟩ := Option.isSome_iff_exists.mp has
    have spells := Double.spells_spelling spelt
    obtain ⟨value, exact⟩ := spells.value_eq
    obtain ⟨whole, part, written, some, digits, -⟩ := id spells
    refine ⟨text, by rw [Double.spelling, spelt], ⟨whole, part, written, some, digits⟩, value, exact, ?_⟩
    intro file rest ends
    obtain ⟨behind, tokens, others⟩ := tokenize_of_spells file spells ends
    rw [Lexer.next_start, String.toList_append, Lexer.next_of_spells file spells ends]
    refine ⟨rfl, rfl, ?_, Lexer.warnings_before, behind, tokens, others⟩
    cases rest.toList <;> rfl
  · intro none
    rw [Double.spelling, Option.not_isSome_iff_eq_none.mp none]

end Kaleidoscope
