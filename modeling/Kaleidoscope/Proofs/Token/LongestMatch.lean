import Kaleidoscope.Grammar.Parser
import Kaleidoscope.Proofs.Number.Spelling
import Kaleidoscope.Proofs.Token.Decomposition

/-! What tokens a text has and where they stand. From left to right a text is divided into pieces, each as
long as it can be; there is one such division. Words, numerals and lone characters are the tokens, and the
characters before a piece tell its place. -/
namespace Kaleidoscope

inductive Piece where
  | layout (c : Char)
  | comment (body : List Char)
  | word (first : Char) (body : List Char)
  | numeral (first : Char) (body : List Char)
  | lone (c : Char)

/-- Digits with at most one point, and at least one digit. -/
def IsWellSpelt (run : List Char) : Prop :=
  run.count '.' ≤ 1 ∧ ∃ c ∈ run, c.isDigit = true

instance (run : List Char) : Decidable (IsWellSpelt run) := inferInstanceAs (Decidable (_ ∧ _))

namespace Piece

def chars : Piece → List Char
  | layout c | lone c => [c]
  | comment body => '#' :: body
  | word first body | numeral first body => first :: body

def IsValid : Piece → Prop
  | layout c => isLayout c = true
  | comment body => ∀ c ∈ body, endsComment c = false
  | word first body => first.isAlpha = true ∧ ∀ c ∈ body, c.isAlphanum = true
  | numeral first body => isNumeral first = true ∧ ∀ c ∈ body, isNumeral c = true
  | lone c => isLoneCharacter c = true

def lexeme? : Piece → Option Lexeme
  | layout _ | comment _ => none
  | word first body => some (.ofWord (String.ofList (first :: body)))
  | numeral first body => some (.number (Literal.ofText (first :: body)).value)
  | lone c => some (.character c)

def isToken (piece : Piece) : Bool := piece.lexeme?.isSome

def complaint? : Piece → Option String
  | numeral first body =>
    if IsWellSpelt (first :: body) then none
    else some ("malformed number '" ++ String.ofList (first :: body) ++ "' read as " ++
      (Literal.ofText (first :: body)).value.briefText)
  | _ => none

end Piece

def Location.behind (file : String) (before : List Char) : Location :=
  ⟨file, (1 + before.count '\n' : Nat), (1 + (before.reverse.takeWhile (· ≠ '\n')).length : Nat)⟩

def placed (file : String) (before : List Char) : List Piece → List (Piece × Location)
  | [] => []
  | piece :: pieces => (piece, .behind file before) :: placed file (before ++ piece.chars) pieces

/-- The offsets of the last characters of tokens, in pieces that follow so many characters. -/
def lastOffsets (before : Nat) : List Piece → List Nat
  | [] => []
  | piece :: pieces =>
    (if piece.isToken then [before + piece.chars.length - 1] else []) ++
      lastOffsets (before + piece.chars.length) pieces

/-- Each piece is as long as any that the text could start with where it stands. -/
inductive LongestMatch : List Char → List Piece → Prop where
  | done : LongestMatch [] []
  | more {piece : Piece} {text : List Char} {pieces : List Piece} (valid : piece.IsValid)
      (longest : ∀ other : Piece, other.IsValid → other.chars <+: piece.chars ++ text →
        other.chars.length ≤ piece.chars.length)
      (others : LongestMatch text pieces) : LongestMatch (piece.chars ++ text) (piece :: pieces)

namespace Piece

variable {piece other : Piece} {text : List Char}

/-- What the text must not go on with, if the piece is to be as long as it can be. -/
def inside : Piece → Char → Bool
  | layout _ | lone _ => fun _ => false
  | comment _ => (!endsComment ·)
  | word .. => Char.isAlphanum
  | numeral .. => isNumeral

theorem IsValid.same_kind (valid : piece.IsValid) (valid' : other.IsValid)
    (head : other.chars.head? = piece.chars.head?) :
    other.inside = piece.inside ∧ (other.chars = piece.chars → other = piece) := by
  have hash : isLayout '#' = false := rfl
  have letter {c : Char} (h : c.isAlpha = true) := not_isLayout_of_isAlpha h
  have digit {c : Char} (h : isNumeral c = true) := not_isLayout_of_isNumeral h
  have lone {c : Char} (h : isLoneCharacter c = true) := lone_classes h
  cases piece <;> cases other <;>
    simp only [chars, List.head?_cons, Option.some.injEq, IsValid, inside] at * <;> grind

/-- Behind its first character a piece has characters of its inside only. -/
theorem IsValid.chars_inside (valid : piece.IsValid) : ∀ c ∈ piece.chars.tail, piece.inside c = true := by
  cases piece <;> simp_all [chars, IsValid, inside]

theorem chars_ne_nil (piece : Piece) : piece.chars ≠ [] := by
  cases piece <;> simp [chars]

/-- The piece with one more character, if it can have one. -/
def extend (d : Char) : Piece → Piece
  | comment body => comment (body ++ [d])
  | word first body => word first (body ++ [d])
  | numeral first body => numeral first (body ++ [d])
  | piece => piece

theorem IsValid.extend {d : Char} (valid : piece.IsValid) (inside : piece.inside d = true) :
    (piece.extend d).IsValid ∧ (piece.extend d).chars = piece.chars ++ [d] := by
  cases piece <;> simp_all [Piece.extend, chars, IsValid, Piece.inside, or_imp]

/-- A piece is as long as it can be just when the text does not go on with a character of its inside. -/
theorem IsValid.longest_iff (valid : piece.IsValid) :
    (∀ other : Piece, other.IsValid → other.chars <+: piece.chars ++ text →
      other.chars.length ≤ piece.chars.length) ↔ Stops piece.inside text := by
  constructor
  · intro longest d first
    apply Bool.eq_false_iff.mpr
    intro inside
    obtain ⟨text', rfl⟩ : ∃ text', text = d :: text' := List.head?_eq_some_iff.mp first
    obtain ⟨valid', chars⟩ := valid.extend inside
    have bound := longest _ valid' (by simp [chars])
    simp [chars] at bound
  · intro ends other valid' front
    obtain ⟨c, body, chars⟩ := List.exists_cons_of_ne_nil piece.chars_ne_nil
    obtain ⟨c', body', chars'⟩ := List.exists_cons_of_ne_nil other.chars_ne_nil
    have head : other.chars.head? = piece.chars.head? := by
      rw [chars, chars', List.cons_append, List.cons_prefix_cons] at front
      simp [chars, chars', front.1]
    apply Nat.le_of_not_lt
    intro longer
    obtain ⟨behind, same⟩ := List.prefix_of_prefix_length_le (List.prefix_append _ _) front (Nat.le_of_lt longer)
    cases behind with
    | nil => simp [← same] at longer
    | cons d behind =>
      have first : text.head? = some d := by
        rw [← same, List.prefix_append_right_inj, List.cons_prefix_iff] at front
        obtain ⟨text', rfl, -⟩ := front
        rfl
      have member : d ∈ other.chars.tail := by
        rw [← same, chars]
        simp
      have inside := valid'.chars_inside d member
      rw [(valid.same_kind valid' head).1, ends d first] at inside
      cases inside

end Piece

variable {text : List Char} {pieces others : List Piece} {lexemes : List (Lexeme × Option String)}

theorem Decomposes.exists_longestMatch (h : Decomposes text lexemes) : ∃ pieces, LongestMatch text pieces := by
  have more (piece : Piece) {text : List Char} (valid : piece.IsValid) (ends : Stops piece.inside text)
      (h : ∃ pieces, LongestMatch text pieces) : ∃ pieces, LongestMatch (piece.chars ++ text) pieces := by
    obtain ⟨pieces, others⟩ := h
    exact ⟨piece :: pieces, .more valid (valid.longest_iff.mpr ends) others⟩
  induction h with
  | done => exact ⟨[], .done⟩
  | layout blank _ ih => exact more (.layout _) blank (fun _ _ => rfl) ih
  | comment inside ends _ ih => exact more (.comment _) inside ends ih
  | word first inside ends _ ih => exact more (.word _ _) ⟨first, inside⟩ ends ih
  | numeral first inside ends _ ih => exact more (.numeral _ _) ⟨first, inside⟩ ends ih
  | lone alone _ ih => exact more (.lone _) alone (fun _ _ => rfl) ih

theorem LongestMatch.unique (h : LongestMatch text pieces) (h' : LongestMatch text others) :
    others = pieces := by
  induction h generalizing others with
  | done =>
    generalize empty : ([] : List Char) = text at h'
    cases h' with
    | done => rfl
    | @more piece => exact absurd (List.append_eq_nil_iff.mp empty.symm).1 piece.chars_ne_nil
  | @more piece text pieces valid longest _ ih =>
    generalize whole : piece.chars ++ text = chars at h'
    cases h' with
    | done => exact absurd (List.append_eq_nil_iff.mp whole).1 piece.chars_ne_nil
    | @more piece' text' pieces' valid' longest' others' =>
      have atMost := longest piece' valid' (whole ▸ List.prefix_append _ _)
      have atLeast := longest' piece valid (whole ▸ List.prefix_append _ _)
      obtain ⟨same, rfl⟩ := List.append_inj whole (Nat.le_antisymm atLeast atMost)
      obtain rfl := (valid.same_kind valid' (by rw [same])).2 same.symm
      rw [ih others']

section Spelling

theorem isDecimalDigit_of_isNumeral {c : Char} (numeral : isNumeral c = true) :
    Text.isDecimalDigit c = c.isDigit ∧ (c.isDigit = false ↔ c = '.') := by
  simp only [isNumeral, Bool.or_eq_true, beq_iff_eq] at numeral
  rcases numeral with digit | rfl
  · rw [Text.isDecimalDigit_of_isDigit digit, digit]
    refine ⟨rfl, by simp, ?_⟩
    rintro rfl
    cases digit
  · exact ⟨by decide, by decide⟩

/-- A run of digits and points is divided at its first point. -/
theorem run_cases {run : List Char} (numerals : ∀ c ∈ run, isNumeral c = true) :
    ∃ digits rest, run = digits ++ rest ∧ run.takeWhile Text.isDecimalDigit = digits ∧
      run.dropWhile Text.isDecimalDigit = rest ∧ digits.count '.' = 0 ∧
        (rest = [] ∨ ∃ behind, rest = '.' :: behind) := by
  refine ⟨_, _, List.takeWhile_append_dropWhile.symm, rfl, rfl, ?_, ?_⟩
  · rw [List.count_eq_zero]
    intro point
    have digit := List.mem_takeWhile_imp point
    revert digit
    decide
  · cases rest : run.dropWhile Text.isDecimalDigit with
    | nil => exact .inl rfl
    | cons c behind =>
      have other : Text.isDecimalDigit c = false := by
        have := List.head?_dropWhile_not Text.isDecimalDigit run
        rw [rest] at this
        simpa using this
      have numeral := numerals c ((List.dropWhile_suffix _).subset (rest ▸ List.mem_cons_self))
      obtain ⟨digit, point⟩ := isDecimalDigit_of_isNumeral numeral
      obtain rfl := point.mp (digit ▸ other)
      exact .inr ⟨behind, rfl⟩

theorem isExact_ofText_iff {run : List Char} (numerals : ∀ c ∈ run, isNumeral c = true) :
    (Literal.ofText run).isExact = true ↔ IsWellSpelt run := by
  have point : ¬ Char.isDigit '.' = true := by decide
  obtain ⟨whole, rest, rfl, taken, dropped, none, rfl | ⟨behind, rfl⟩⟩ := run_cases numerals
  · simp only [Literal.ofText, Literal.isExact, Literal.isNumeric, Literal.digits, taken, dropped,
      IsWellSpelt]
    simp [none]
  · obtain ⟨fraction, ignored, rfl, taken', dropped', none', rfl | ⟨more, rfl⟩⟩ :=
      run_cases fun c member => numerals c (List.mem_append_right _ (List.mem_cons_of_mem _ member))
    · simp only [Literal.ofText, Literal.isExact, Literal.isNumeric, Literal.digits, taken, dropped,
        taken', dropped', IsWellSpelt]
      simp [none, none', point, or_and_right, exists_or]
    · simp only [Literal.ofText, Literal.isExact, Literal.isNumeric, Literal.digits, taken, dropped,
        taken', dropped', IsWellSpelt]
      simp [none, none']

end Spelling

namespace Window

/-- The window has been moved over these characters. -/
structure IsBehind (before : List Char) (w : Window) : Prop where
  line : w.line = 1 + before.count '\n'
  column : w.column = 1 + (before.reverse.takeWhile (· ≠ '\n')).length

theorem isBehind_start : start.IsBehind [] := ⟨rfl, rfl⟩

theorem IsBehind.read {before : List Char} {w : Window} (h : w.IsBehind before) (c : Char) :
    (w.read c).IsBehind (before ++ [c]) := by
  by_cases feed : c = '\n'
  · exact ⟨by simp [Window.read, feed, h.line, Nat.add_assoc], by simp [Window.read, feed]⟩
  · exact ⟨by simp [Window.read, feed, h.line],
      by simp [Window.read, feed, h.column, Nat.add_assoc]⟩

theorem IsBehind.foldl {before : List Char} {w : Window} (h : w.IsBehind before) (chars : List Char) :
    (chars.foldl Window.read w).IsBehind (before ++ chars) := by
  induction chars generalizing before w with
  | nil => simpa using h
  | cons c chars ih => simpa using ih (h.read c)

theorem IsBehind.location {before : List Char} {w : Window} (h : w.IsBehind before) (file : String) :
    (⟨file, w.line, w.column⟩ : Location) = .behind file before := by
  rw [h.line, h.column]
  rfl

end Window

theorem SitedText.layOut_append (w : Window) (front back : List Char) :
    (layOut w [] (front ++ back)).sites =
      (layOut w [] front).sites ++ (layOut (front.foldl Window.read w) [] back).sites := by
  induction front generalizing w with
  | nil => rfl
  | cons c front ih =>
    simp only [List.cons_append, layOut, List.foldl_cons]
    rw [layOut_sites, ih, layOut_sites _ [_] front]
    simp

theorem exists_first_site (w : Window) (piece : Piece) (text : List Char) :
    ∃ site rest, (SitedText.layOut w [] (piece.chars ++ text)).sites = site :: rest ∧
      site.line = w.line ∧ site.column = w.column := by
  obtain ⟨c, body, chars⟩ := List.exists_cons_of_ne_nil piece.chars_ne_nil
  refine ⟨SitedText.siteAt w c, (SitedText.layOut (w.read c) [] (body ++ text)).sites, ?_, rfl, rfl⟩
  rw [chars, List.cons_append, SitedText.layOut, SitedText.layOut_sites]
  rfl

def Token.reported (token : Token) : Lexeme × Location × Option String :=
  (token.lexeme, token.location, token.complaint?)

def Piece.reported? (place : Location) (piece : Piece) : Option (Lexeme × Location × Option String) :=
  piece.lexeme?.map (·, place, piece.complaint?)

namespace Scan

variable {file : String} {ending : Window} {site : Site} {rest : List Site} {piece : Piece}

theorem dropWhile_run {inside : Char → Bool} {body : List Char} (chars : rest.map (·.char) = body ++ text)
    (all : ∀ c ∈ body, inside c = true) (ends : Stops inside text) :
    rest.dropWhile (inside ·.char) = rest.drop body.length := by
  obtain ⟨taken, -⟩ := run_split chars all ends
  have length : (rest.takeWhile (inside ·.char)).length = body.length := by
    rw [← taken, List.length_map]
  have split : rest = rest.takeWhile (inside ·.char) ++ rest.dropWhile (inside ·.char) :=
    List.takeWhile_append_dropWhile.symm
  conv_rhs => rw [split, ← length, List.drop_left]

/-- The scanner reports the piece at the front and goes on behind it. -/
theorem reported_piece (valid : piece.IsValid) (ends : Stops piece.inside text)
    (chars : (site :: rest).map (·.char) = piece.chars ++ text) :
    (tokens file ending [] (site :: rest)).map Token.reported =
      (piece.reported? ⟨file, site.line, site.column⟩).toList ++
        (tokens file ending [] ((site :: rest).drop piece.chars.length)).map Token.reported := by
  cases piece with
  | layout c =>
    obtain ⟨rfl, -⟩ : site.char = c ∧ rest.map (·.char) = text := List.cons.inj chars
    rw [tokens_layout valid]
    rfl
  | comment body =>
    obtain ⟨hash, split⟩ : site.char = '#' ∧ rest.map (·.char) = body ++ text := List.cons.inj chars
    have inside : ∀ c ∈ body, (!endsComment c) = true := by
      simpa only [Piece.IsValid, Bool.not_eq_true'] using valid
    rw [tokens_comment hash, dropWhile_run split inside ends]
    rfl
  | word first body =>
    obtain ⟨rfl, split⟩ : site.char = first ∧ rest.map (·.char) = body ++ text := List.cons.inj chars
    obtain ⟨blank, hash⟩ := not_isLayout_of_isAlpha valid.1
    rw [tokens_lexeme blank hash, tokenAt, lexeme_word valid.1 valid.2 ends split,
      dropWhile_run split valid.2 ends]
    rfl
  | numeral first body =>
    obtain ⟨rfl, split⟩ : site.char = first ∧ rest.map (·.char) = body ++ text := List.cons.inj chars
    obtain ⟨blank, hash, -⟩ := not_isLayout_of_isNumeral valid.1
    have exact_iff := isExact_ofText_iff (List.forall_mem_cons.mpr valid)
    rw [tokens_lexeme blank hash, tokenAt, lexeme_numeral valid.1 valid.2 ends split,
      dropWhile_run split valid.2 ends]
    by_cases wellSpelt : IsWellSpelt (site.char :: body)
    · simp [numeralToken, exact_iff.mpr wellSpelt, Token.reported, Token.complaint?, Piece.reported?,
        Piece.lexeme?, Piece.complaint?, wellSpelt, Piece.chars]
    · have inexact := Bool.eq_false_iff.mpr (mt exact_iff.mp wellSpelt)
      simp [numeralToken, inexact, Token.reported, Token.complaint?, Piece.reported?, Piece.lexeme?,
        Piece.complaint?, wellSpelt, Piece.chars]
  | lone c =>
    obtain ⟨rfl, -⟩ : site.char = c ∧ rest.map (·.char) = text := List.cons.inj chars
    obtain ⟨blank, hash, -⟩ := lone_classes valid
    rw [tokens_lexeme blank hash, tokenAt, lexeme_lone valid]
    rfl

theorem reported_pieces {before : List Char} {w : Window} (division : LongestMatch text pieces)
    (behind : w.IsBehind before) :
    (tokens file ending [] (SitedText.layOut w [] text).sites).map Token.reported =
      (placed file before pieces).filterMap fun (piece, place) => piece.reported? place := by
  induction division generalizing before w with
  | done =>
    rw [SitedText.layOut, List.reverse_nil, tokens_nil]
    rfl
  | @more piece text pieces valid longest _ ih =>
    obtain ⟨site, rest, sites, line, column⟩ := exists_first_site w piece text
    have chars := SitedText.chars_layOut w [] (piece.chars ++ text)
    have left : (site :: rest).drop piece.chars.length =
        (SitedText.layOut (piece.chars.foldl Window.read w) [] text).sites := by
      rw [← sites, SitedText.layOut_append, List.drop_left' (by simp [SitedText.length_layOut_sites])]
    rw [sites] at chars ⊢
    rw [reported_piece valid (valid.longest_iff.mp longest) chars, left, ih (behind.foldl piece.chars),
      line, column, behind.location, placed, List.filterMap_cons]
    cases reported : piece.reported? (.behind file before) <;> simp [reported]

end Scan

namespace Parser

/-- After so many calls for the next token the current one is that many tokens further on, or the token at
the end of the input. -/
theorem iterate_advance (p : Parser) (calls : Nat) :
    advance^[calls] p.look = { p.look with ahead := p.ahead.drop calls } := by
  induction calls with
  | zero => rfl
  | succ calls ih =>
    rw [Function.iterate_succ_apply', ih]
    simp [advance, look, List.tail_drop]

end Parser

theorem reported_tokenize (file : String) {text : String} (division : LongestMatch text.toList pieces) :
    (tokenize file text).tokens.map Token.reported =
      (placed file [] pieces).filterMap fun (piece, place) => piece.reported? place :=
  Scan.reported_pieces division Window.isBehind_start

theorem location_final (file text : String) :
    (tokenize file text).final.location = .behind file text.toList := by
  have behind := Window.isBehind_start.foldl text.toList
  have ending : (SitedText.ofText text).ending = (text.toList.foldl Window.read .start).close :=
    SitedText.layOut_ending .start [] text.toList
  rw [tokenize, ending, ← List.nil_append text.toList, ← behind.location]
  rfl

/-- A text is divided into the longest pieces in one way only, and its tokens are the words, numerals and
lone characters of this division, each in its place. Behind the last of them stands the token at the end of
the input, however often the next one is called for. The misspelt numerals, and no others, are warned about. -/
theorem tokenize_longest_match (file text : String) :
    ∃ pieces, LongestMatch text.toList pieces ∧
      (∀ others, LongestMatch text.toList others → others = pieces) ∧
      let tokens := (tokenize file text).tokens
      let final := (tokenize file text).final
      tokens.map (fun token => (token.lexeme, token.location)) =
        (placed file [] pieces).filterMap (fun (piece, place) => piece.lexeme?.map (·, place)) ∧
      final.lexeme = .endOfInput ∧ final.location = .behind file text.toList ∧
      (∀ table nesting calls, (Parser.advance^[calls] (Parser.ofText table nesting file text).look).current =
        tokens[calls]?.getD final) ∧
      tokens.filterMap Token.warning? = (placed file [] pieces).filterMap
        fun (piece, place) => piece.complaint?.map (place.text ++ ": warning: " ++ ·) := by
  obtain ⟨_, decomposes⟩ := exists_decomposes text.toList
  obtain ⟨pieces, division⟩ := decomposes.exists_longestMatch
  have reported := reported_tokenize file division
  refine ⟨pieces, division, fun others => division.unique, ?_, rfl, location_final file text, ?_, ?_⟩
  · have said := congrArg (List.map fun report => (report.1, report.2.1)) reported
    rw [List.map_map, List.map_filterMap] at said
    simpa [Function.comp_def, Token.reported, Piece.reported?] using said
  · intro table nesting calls
    rw [Parser.iterate_advance, Parser.current, List.headD_eq_head?_getD, List.head?_drop]
    rfl
  · have warned := congrArg (List.filterMap fun report =>
      report.2.2.map (report.2.1.text ++ ": warning: " ++ ·)) reported
    rw [List.filterMap_map, List.filterMap_filterMap] at warned
    refine warned.trans (congrArg (List.filterMap · _) (funext fun entry => ?_))
    obtain ⟨piece, place⟩ := entry
    cases piece <;> simp [Piece.reported?, Piece.lexeme?, Piece.complaint?]

end Kaleidoscope
