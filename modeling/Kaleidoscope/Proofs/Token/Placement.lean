import Kaleidoscope.Proofs.Source.Lines
import Kaleidoscope.Proofs.Token.Layout
import Kaleidoscope.Proofs.Token.Numeral

/-! Where each token of a text stands. It is one of the longest pieces, or it stands behind all of them at the end; the
characters before it tell its location, and these and its own with one more tell what it keeps of its line. From token
to token the locations increase. -/
namespace Kaleidoscope

/-- The token stands in the text behind some characters, consists of the next ones, and others are left. -/
inductive Token.StandsIn (file : String) (text : List Char) (token : Token) :
    List Char → List Char → List Char → Prop where
  | piece {front back : List Piece} {piece : Piece} (division : LongestMatch text (front ++ piece :: back))
      (lexeme : piece.lexeme? = some token.lexeme)
      (location : token.location = .behind file (front.flatMap Piece.chars)) :
      StandsIn file text token (front.flatMap Piece.chars) piece.chars (back.flatMap Piece.chars)
  | ending (lexeme : token.lexeme = .endOfInput) (location : token.location = .behind file text) :
      StandsIn file text token text [] []

namespace Location

/-- It is on an earlier line, or on the same line and further left. -/
def Precedes (a b : Location) : Prop := a.line < b.line ∨ a.line = b.line ∧ a.column < b.column

variable {a b c : Location}

theorem Precedes.trans (h : a.Precedes b) (k : b.Precedes c) : a.Precedes c := by
  unfold Precedes at *
  omega

theorem Precedes.irrefl (a : Location) : ¬ a.Precedes a := by
  unfold Precedes
  omega

theorem precedes_behind (file : String) (before : List Char) {chars : List Char} (some : chars ≠ []) :
    (behind file before).Precedes (behind file (before ++ chars)) := by
  by_cases feed : '\n' ∈ chars
  · have := List.count_pos_iff.mpr feed
    refine .inl ?_
    simp only [behind, List.count_append]
    omega
  · have := List.length_pos_iff.mpr some
    refine .inr ⟨?_, ?_⟩
    · simp [behind, List.count_eq_zero.mpr feed]
    · simp only [behind, ← length_lineStart, lineStart_append feed, List.length_append]
      omega

end Location

def tokensOf (file : String) (before : List Char) : List Piece → List Token
  | [] => []
  | piece :: pieces =>
    (piece.token? (.behind file before)
      (((before ++ piece.chars).foldl Window.read .start).peek (pieces.flatMap Piece.chars))).toList ++
        tokensOf file (before ++ piece.chars) pieces

variable {file : String} {text before chars behind : List Char} {pieces : List Piece} {token : Token}

theorem Scan.tokens_eq_tokensOf (division : LongestMatch text pieces) (before : List Char) {ending w : Window}
    (read : w = before.foldl Window.read .start) (ended : ending = (text.foldl Window.read w).close) :
    tokens file ending [] (sitesOf w text) = tokensOf file before pieces := by
  induction division generalizing before w with
  | done =>
    rw [sitesOf, SitedText.layOut, List.reverse_nil, tokens_nil]
    rfl
  | @more piece text pieces valid longest others ih =>
    have place : (⟨file, w.line, w.column⟩ : Location) = .behind file before := by
      rw [read]
      exact (Window.isBehind_start.foldl before).location file
    have read' : piece.chars.foldl Window.read w = (before ++ piece.chars).foldl Window.read .start := by
      rw [List.foldl_append, read]
    rw [tokens_piece valid (valid.longest_iff.mp longest) ended, place, tokensOf, ← others.chars_eq,
      ih (before ++ piece.chars) read' (by rw [ended, List.foldl_append]), read']

theorem tokens_eq_tokensOf (file : String) {text : String} (division : LongestMatch text.toList pieces) :
    (tokenize file text).tokens = tokensOf file [] pieces :=
  (tokens_tokenize file rfl).trans (Scan.tokens_eq_tokensOf division [] rfl rfl)

theorem Piece.token?_eq_some {piece : Piece} {place : Location} {window : Window}
    (some : piece.token? place window = some token) :
    piece.lexeme? = .some token.lexeme ∧ token.location = place ∧ token.window = window := by
  cases piece <;> cases some <;> exact ⟨rfl, rfl, rfl⟩

theorem LongestMatch.isValid_of_mem {piece : Piece} (division : LongestMatch text pieces) (member : piece ∈ pieces) :
    piece.IsValid := by
  induction division with
  | done => cases member
  | more valid _ _ ih =>
    rcases List.mem_cons.mp member with rfl | later
    · exact valid
    · exact ih later

theorem Piece.lexeme?_ne_endOfInput (piece : Piece) : piece.lexeme? ≠ some .endOfInput := by
  cases piece with
  | word first body =>
    rw [lexeme?, Lexeme.ofWord]
    split
    · simp
    · split <;> simp
  | _ => simp [lexeme?]

theorem Piece.not_isLayout_of_mem {piece : Piece} (valid : piece.IsValid) (token : piece.isToken = true) {c : Char}
    (member : c ∈ piece.chars) : isLayout c = false := by
  obtain ⟨first, body, chars⟩ := List.exists_cons_of_ne_nil piece.chars_ne_nil
  rw [chars] at member
  rcases List.mem_cons.mp member with rfl | inside
  · cases piece <;> cases chars
    · cases token
    · cases token
    · exact (not_isLayout_of_isAlpha valid.1).1
    · exact (not_isLayout_of_isNumeral valid.1).1
    · exact (lone_classes valid).1
  · by_contra blank
    have goesOn := valid.chars_inside c (by rwa [chars])
    rw [piece.stops_of_isToken token (.inl (Bool.eq_true_of_not_eq_false blank)) [] c rfl] at goesOn
    cases goesOn

theorem mem_tokensOf (member : token ∈ tokensOf file before pieces) :
    ∃ front piece back, pieces = front ++ piece :: back ∧ piece.lexeme? = some token.lexeme ∧
      token.location = .behind file (before ++ front.flatMap Piece.chars) ∧
      token.window = ((before ++ front.flatMap Piece.chars ++ piece.chars).foldl Window.read .start).peek
        (back.flatMap Piece.chars) := by
  induction pieces generalizing before with
  | nil => cases member
  | cons piece pieces ih =>
    rcases List.mem_append.mp member with here | later
    · obtain ⟨lexeme, location, window⟩ := Piece.token?_eq_some (Option.mem_toList.mp here)
      exact ⟨[], piece, pieces, rfl, lexeme, by simpa using location, by simpa using window⟩
    · obtain ⟨front, piece', back, rfl, lexeme, location, window⟩ := ih later
      exact ⟨piece :: front, piece', back, rfl, lexeme, by simpa using location, by simpa using window⟩

theorem precedes_of_mem_tokensOf (member : token ∈ tokensOf file (before ++ chars) pieces) (some : chars ≠ []) :
    (Location.behind file before).Precedes token.location := by
  obtain ⟨front, piece, back, -, -, location, -⟩ := mem_tokensOf member
  rw [location, List.append_assoc]
  exact Location.precedes_behind file before (List.append_ne_nil_of_left_ne_nil some _)

theorem pairwise_precedes_tokensOf (file : String) (before : List Char) (pieces : List Piece) :
    (tokensOf file before pieces).Pairwise fun s t => s.location.Precedes t.location := by
  induction pieces generalizing before with
  | nil => exact .nil
  | cons piece pieces ih =>
    refine List.pairwise_append.mpr ⟨?_, ih _, fun s here t later => ?_⟩
    · cases piece.token? _ _ <;> simp
    · rw [(Piece.token?_eq_some (Option.mem_toList.mp here)).2.1]
      exact precedes_of_mem_tokensOf later piece.chars_ne_nil

namespace Token

namespace StandsIn

theorem text_eq (stands : token.StandsIn file text before chars behind) : text = before ++ chars ++ behind := by
  cases stands with
  | piece division => simpa using division.chars_eq
  | ending => simp

theorem location_eq (stands : token.StandsIn file text before chars behind) :
    token.location = .behind file before := by
  cases stands with
  | piece _ _ location => exact location
  | ending _ location => exact location

theorem not_isLayout_of_mem (stands : token.StandsIn file text before chars behind) :
    ∀ c ∈ chars, isLayout c = false := by
  intro c member
  cases stands with
  | @piece front back piece division lexeme =>
    have isToken : piece.isToken = true := Option.isSome_of_eq_some lexeme
    exact piece.not_isLayout_of_mem (division.isValid_of_mem (by simp)) isToken member
  | ending => cases member

theorem chars_eq_nil_iff (stands : token.StandsIn file text before chars behind) :
    chars = [] ↔ token.lexeme = .endOfInput := by
  cases stands with
  | @piece front back piece division lexeme =>
    exact iff_of_false piece.chars_ne_nil fun ends => piece.lexeme?_ne_endOfInput (ends ▸ lexeme)
  | ending lexeme => simp [lexeme]

end StandsIn

end Token

theorem exists_standsIn (file : String) {text : String} (member : token ∈ (tokenize file text).all) :
    ∃ before chars behind, token.StandsIn file text.toList before chars behind ∧
      token.window = ((before ++ chars).foldl Window.read .start).peek behind := by
  rcases List.mem_append.mp member with inside | last
  · obtain ⟨_, decomposes⟩ := exists_decomposes text.toList
    obtain ⟨pieces, division⟩ := decomposes.exists_longestMatch
    rw [tokens_eq_tokensOf file division] at inside
    obtain ⟨front, piece, back, rfl, lexeme, location, window⟩ := mem_tokensOf inside
    exact ⟨_, _, _, .piece division lexeme location, window⟩
  · obtain rfl := List.mem_singleton.mp last
    refine ⟨_, _, _, .ending rfl (location_final file text), ?_⟩
    rw [tokenize, SitedText.ending_ofText, List.append_nil]
    rfl

/-- No two tokens stand at one place: the locations increase, that of the end of the input comes last. -/
theorem pairwise_precedes_tokenize (file text : String) :
    (tokenize file text).all.Pairwise fun s t => s.location.Precedes t.location := by
  obtain ⟨_, decomposes⟩ := exists_decomposes text.toList
  obtain ⟨pieces, division⟩ := decomposes.exists_longestMatch
  refine List.pairwise_append.mpr ⟨?_, List.pairwise_singleton _ _, fun s inside t last => ?_⟩
  · rw [tokens_eq_tokensOf file division]
    exact pairwise_precedes_tokensOf file [] pieces
  · rw [tokens_eq_tokensOf file division] at inside
    obtain ⟨front, piece, back, rfl, -, location, -⟩ := mem_tokensOf inside
    have split : text.toList = front.flatMap Piece.chars ++ (piece.chars ++ back.flatMap Piece.chars) := by
      simpa using division.chars_eq
    rw [List.mem_singleton.mp last, location, location_final, split]
    exact Location.precedes_behind file _ (List.append_ne_nil_of_left_ne_nil piece.chars_ne_nil _)

end Kaleidoscope
