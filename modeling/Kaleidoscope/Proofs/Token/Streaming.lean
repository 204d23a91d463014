import Kaleidoscope.Proofs.Token.Joining

/-! Tokens from a source that hands over one character when it is asked. A lexer holds the last character it got,
and that is all it knows of what stands behind a token. It gives the tokens of the text one by one, and how often
it has asked by then tells where the token ends. -/
namespace Kaleidoscope

/-- The window when one more character of the text has been asked for. -/
def Window.peek (w : Window) : List Char → Window
  | [] => w.close
  | c :: _ => w.read c

def Piece.token? (place : Location) (window : Window) : Piece → Option Token
  | layout _ | comment _ => none
  | word first body => some ⟨.ofWord (String.ofList (first :: body)), place, window, none⟩
  | numeral first body =>
    let (lexeme, misspelling) := numeralToken (first :: body)
    some ⟨lexeme, place, window, misspelling⟩
  | lone c => some ⟨.character c, place, window, none⟩

namespace Window

variable {w : Window}

theorem requests_close (reading : w.atEnd = false) : w.close.requests = w.requests + 1 := by
  simp [requests, close, reading]

theorem requests_peek (reading : w.atEnd = false) (text : List Char) :
    (w.peek text).requests = w.requests + 1 := by
  cases text with
  | nil => exact requests_close reading
  | cons c text => exact requests_read w c

end Window

theorem Piece.token?_cases (piece : Piece) (place : Location) (window : Window) :
    (piece.isToken = false ∧ piece.token? place window = none) ∨
    (piece.isToken = true ∧ ∃ token, piece.token? place window = some token ∧ token.window = window) := by
  cases piece with
  | layout _ | comment _ => exact .inl ⟨rfl, rfl⟩
  | word _ _ | numeral _ _ | lone _ => exact .inr ⟨rfl, _, rfl, rfl⟩

structure Lexer where
  file : String
  /-- What the source has not handed over yet. -/
  source : List Char
  /-- How often the source has been asked. -/
  calls : Nat
  /-- The character that is held; none once the source has ended. -/
  held : Option Char
  line : Nat
  column : Nat
  window : Window
  warnings : List String

namespace Lexer

/-- A lexer holds a blank at first, so that it asks for a character before the first token. -/
def start (file text : String) : Lexer := ⟨file, text.toList, 0, some ' ', 1, 0, .start, []⟩

def fetch (l : Lexer) : Lexer :=
  match l.source with
  | [] =>
    { l with calls := l.calls + 1, held := none, line := l.window.line, column := l.window.column,
             window := l.window.close }
  | c :: source =>
    { l with source := source, calls := l.calls + 1, held := some c, line := l.window.line,
             column := l.window.column, window := l.window.read c }

def left (l : Lexer) : Nat := l.source.length + l.held.toList.length

theorem left_fetch {l : Lexer} {c : Char} (held : l.held = some c) : l.fetch.left < l.left := by
  cases source : l.source <;> simp [fetch, left, source, held]

/-- Goes on as long as the character that is held is of the class, and collects these characters. -/
def collect (inside : Char → Bool) (l : Lexer) : List Char × Lexer :=
  match _held : l.held with
  | none => ([], l)
  | some c =>
    if inside c then (c :: (l.fetch.collect inside).1, (l.fetch.collect inside).2) else ([], l)
termination_by l.left
decreasing_by all_goals exact left_fetch _held

variable {l : Lexer} {c : Char} {inside : Char → Bool}

theorem collect_none (held : l.held = none) : l.collect inside = ([], l) := by
  rw [collect]
  split
  · rfl
  · simp_all

theorem collect_some (held : l.held = some c) : l.collect inside =
    if inside c then (c :: (l.fetch.collect inside).1, (l.fetch.collect inside).2) else ([], l) := by
  rw [collect]
  split <;> simp_all

theorem left_collect_le (inside : Char → Bool) (l : Lexer) : (l.collect inside).2.left ≤ l.left := by
  induction l using collect.induct inside with
  | case1 l held => rw [collect_none held]
  | case2 l c held taken ih =>
    rw [collect_some held, if_pos taken]
    exact Nat.le_of_lt (Nat.lt_of_le_of_lt ih (left_fetch held))
  | case3 l c held other => rw [collect_some held, if_neg other]

def place (l : Lexer) : Location := ⟨l.file, l.line, l.column⟩

def warn (l : Lexer) (warning? : Option String) : Lexer :=
  { l with warnings := l.warnings ++ warning?.toList }

/-- The token that starts with the character that is held; a misspelt number is warned about. -/
def scan (l : Lexer) (c : Char) : Token × Lexer :=
  if c.isAlpha then
    let (body, next) := l.fetch.collect Char.isAlphanum
    (⟨.ofWord (String.ofList (c :: body)), l.place, next.window, none⟩, next)
  else if isNumeral c then
    let (body, next) := l.fetch.collect isNumeral
    let (lexeme, misspelling) := numeralToken (c :: body)
    let token : Token := ⟨lexeme, l.place, next.window, misspelling⟩
    (token, next.warn token.warning?)
  else (⟨.character c, l.place, l.fetch.window, none⟩, l.fetch)

/-- The next token; at the end of the text the token there, again and again. -/
def next (l : Lexer) : Token × Lexer :=
  match _held : (l.collect isLayout).2.held with
  | none =>
    (⟨.endOfInput, (l.collect isLayout).2.place, (l.collect isLayout).2.window, none⟩, (l.collect isLayout).2)
  | some c =>
    if c = '#' then ((l.collect isLayout).2.fetch.collect (!endsComment ·)).2.next
    else (l.collect isLayout).2.scan c
termination_by l.left
decreasing_by
  exact Nat.lt_of_le_of_lt (left_collect_le _ _) (Nat.lt_of_lt_of_le (left_fetch _held) (left_collect_le _ _))

/-- Blanks are passed, and then the character that is held decides. -/
theorem next_eq {passed : Lexer} (passes : (l.collect isLayout).2 = passed) : l.next =
    match passed.held with
    | none => (⟨.endOfInput, passed.place, passed.window, none⟩, passed)
    | some c => if c = '#' then (passed.fetch.collect (!endsComment ·)).2.next else passed.scan c := by
  subst passes
  rw [next]
  split
  · next none => simp [none]
  · next c first => simp [first]

theorem next_none (held : l.held = none) : l.next = (⟨.endOfInput, l.place, l.window, none⟩, l) := by
  rw [next_eq (congrArg Prod.snd (collect_none held)), held]

theorem next_layout (held : l.held = some c) (blank : isLayout c = true) : l.next = l.fetch.next := by
  have passed : (l.collect isLayout).2 = (l.fetch.collect isLayout).2 := by
    rw [collect_some held, if_pos blank]
  exact (next_eq passed).trans (next_eq rfl).symm

theorem passes_none (held : l.held = some c) (other : isLayout c = false) : (l.collect isLayout).2 = l := by
  rw [collect_some held, if_neg (Bool.eq_false_iff.mp other)]

theorem next_comment (held : l.held = some '#') : l.next = (l.fetch.collect (!endsComment ·)).2.next := by
  rw [next_eq (passes_none held rfl), held]
  exact if_pos rfl

theorem next_scan (held : l.held = some c) (blank : isLayout c = false) (hash : c ≠ '#') :
    l.next = l.scan c := by
  rw [next_eq (passes_none held blank), held]
  exact if_neg hash

def pulled (l : Lexer) : Nat → Token × Lexer
  | 0 => l.next
  | more + 1 => l.next.2.pulled more

theorem pulled_none (held : l.held = none) (i : Nat) :
    l.pulled i = (⟨.endOfInput, l.place, l.window, none⟩, l) := by
  induction i with
  | zero => exact next_none held
  | succ i ih => rw [pulled, next_none held, ih]

theorem pulled_congr {l' : Lexer} (same : l'.next = l.next) (i : Nat) : l'.pulled i = l.pulled i := by
  cases i <;> simp [pulled, same]

/-- The lexer before this text, behind what it has read already: it holds the first character. -/
def before (file : String) (w : Window) (text : List Char) (calls : Nat) (warnings : List String) : Lexer :=
  fetch ⟨file, text, calls, none, 0, 0, w, warnings⟩

section Before

variable {file : String} {w : Window} {text back body : List Char} {calls : Nat} {warnings : List String}

theorem fetch_before (c : Char) : (before file w (c :: text) calls warnings).fetch =
    before file (w.read c) text (calls + 1) warnings := by
  cases text <;> rfl

theorem calls_before : (before file w text calls warnings).calls = calls + 1 := by
  cases text <;> rfl

theorem warnings_before : (before file w text calls warnings).warnings = warnings := by
  cases text <;> rfl

theorem window_before : (before file w text calls warnings).window = w.peek text := by
  cases text <;> rfl

theorem warn_before (warning? : Option String) :
    (before file w text calls warnings).warn warning? =
      before file w text calls (warnings ++ warning?.toList) := by
  cases text <;> rfl

/-- The characters of a class are collected one after another, and then the lexer is before the others. -/
theorem collect_before (all : ∀ c ∈ body, inside c = true) (ends : Stops inside back) :
    (before file w (body ++ back) calls warnings).collect inside =
      (body, before file (body.foldl Window.read w) back (calls + body.length) warnings) := by
  induction body generalizing w calls with
  | nil =>
    cases back with
    | nil => exact collect_none rfl
    | cons c back =>
      have other : ¬ inside c = true := by simp [ends c rfl]
      rw [List.nil_append, collect_some (c := c) rfl, if_neg other]
      rfl
  | cons c body ih =>
    obtain ⟨first, others⟩ := List.forall_mem_cons.mp all
    rw [List.cons_append, collect_some (c := c) rfl, if_pos first, fetch_before, ih others, List.foldl_cons,
      List.length_cons, Nat.add_assoc, Nat.add_comm 1]

end Before

end Lexer

namespace Scan

variable {file : String} {ending w : Window} {text back body : List Char} {inside : Char → Bool}

/-- The sites of a text that stands where the window is. -/
def sitesOf (w : Window) (text : List Char) : List Site := (SitedText.layOut w [] text).sites

theorem sitesOf_cons (w : Window) (c : Char) (text : List Char) :
    sitesOf w (c :: text) = SitedText.siteAt w c :: sitesOf (w.read c) text :=
  SitedText.layOut_cons_sites w c text

theorem chars_sitesOf (w : Window) (text : List Char) : (sitesOf w text).map (·.char) = text :=
  SitedText.chars_layOut w [] text

theorem dropWhile_sitesOf (all : ∀ c ∈ body, inside c = true) (ends : Stops inside back) :
    (sitesOf w (body ++ back)).dropWhile (inside ·.char) = sitesOf (body.foldl Window.read w) back := by
  rw [dropWhile_run (chars_sitesOf w (body ++ back)) all ends, sitesOf, sitesOf,
    SitedText.layOut_append, List.drop_left' (by simp [SitedText.length_layOut_sites])]

theorem windowBefore_sitesOf (ended : ending = (text.foldl Window.read w).close) :
    windowBefore ending (sitesOf w text) = w.peek text := by
  cases text with
  | nil => exact ended
  | cons c text =>
    rw [sitesOf_cons]
    rfl

/-- The scanner finds the token that the piece at the front is, if it is one, and goes on behind the piece. -/
theorem tokens_piece {piece : Piece} (valid : piece.IsValid) (ends : Stops piece.inside text)
    (ended : ending = ((piece.chars ++ text).foldl Window.read w).close) :
    tokens file ending [] (sitesOf w (piece.chars ++ text)) =
      (piece.token? ⟨file, w.line, w.column⟩ ((piece.chars.foldl Window.read w).peek text)).toList ++
        tokens file ending [] (sitesOf (piece.chars.foldl Window.read w) text) := by
  rw [List.foldl_append] at ended
  rw [← windowBefore_sitesOf ended]
  cases piece with
  | layout c =>
    have blank : isLayout (SitedText.siteAt w c).char = true := valid
    rw [Piece.chars, List.singleton_append, sitesOf_cons, tokens_layout blank]
    rfl
  | comment body =>
    have inside : ∀ c ∈ body, (!endsComment c) = true := by
      simpa only [Piece.IsValid, Bool.not_eq_true'] using valid
    rw [Piece.chars, List.cons_append, sitesOf_cons, tokens_comment rfl, dropWhile_sitesOf inside ends]
    rfl
  | word first body =>
    let site := SitedText.siteAt w first
    have alpha : site.char.isAlpha = true := valid.1
    obtain ⟨blank, hash⟩ := not_isLayout_of_isAlpha alpha
    rw [Piece.chars, List.cons_append, sitesOf_cons, tokens_lexeme blank hash, tokenAt,
      lexeme_word alpha valid.2 ends (chars_sitesOf _ _), dropWhile_sitesOf valid.2 ends]
    rfl
  | numeral first body =>
    let site := SitedText.siteAt w first
    have numeral : isNumeral site.char = true := valid.1
    obtain ⟨blank, hash, -⟩ := not_isLayout_of_isNumeral numeral
    rw [Piece.chars, List.cons_append, sitesOf_cons, tokens_lexeme blank hash, tokenAt,
      lexeme_numeral numeral valid.2 ends (chars_sitesOf _ _), dropWhile_sitesOf valid.2 ends]
    rfl
  | lone c =>
    have alone : isLoneCharacter (SitedText.siteAt w c).char = true := valid
    obtain ⟨blank, hash, -⟩ := lone_classes alone
    rw [Piece.chars, List.singleton_append, sitesOf_cons, tokens_lexeme blank hash, tokenAt, lexeme_lone alone]
    rfl

end Scan

namespace Lexer

variable {file : String} {w : Window} {text : List Char} {piece : Piece}

theorem next_piece (file : String) (w : Window) (valid : piece.IsValid) (ends : Stops piece.inside text) (calls : Nat)
    (warnings : List String) :
    let behind := before file (piece.chars.foldl Window.read w) text (calls + piece.chars.length)
    (before file w (piece.chars ++ text) calls warnings).next =
      match piece.token? ⟨file, w.line, w.column⟩ ((piece.chars.foldl Window.read w).peek text) with
      | none => (behind warnings).next
      | some token => (token, behind (warnings ++ token.warning?.toList)) := by
  have one (body : List Char) : calls + 1 + body.length = calls + (body.length + 1) := by omega
  cases piece with
  | layout c =>
    rw [Piece.chars, List.singleton_append, next_layout (c := c) rfl valid, fetch_before]
    rfl
  | comment body =>
    have inside : ∀ c ∈ body, (!endsComment c) = true := by
      simpa only [Piece.IsValid, Bool.not_eq_true'] using valid
    rw [Piece.chars, List.cons_append, next_comment rfl, fetch_before, collect_before inside ends, one]
    rfl
  | word first body =>
    obtain ⟨blank, hash⟩ := not_isLayout_of_isAlpha valid.1
    have silent (place : Location) (window : Window) : (⟨.ofWord (String.ofList (first :: body)), place, window,
        none⟩ : Token).warning? = none := rfl
    rw [Piece.chars, List.cons_append, next_scan (c := first) rfl blank hash, scan, if_pos valid.1, fetch_before,
      collect_before valid.2 ends, one]
    simp only [Piece.token?, silent, window_before, Option.toList_none, List.append_nil]
    rfl
  | numeral first body =>
    obtain ⟨blank, hash, alpha⟩ := not_isLayout_of_isNumeral valid.1
    rw [Piece.chars, List.cons_append, next_scan (c := first) rfl blank hash, scan,
      if_neg (Bool.eq_false_iff.mp alpha), if_pos valid.1, fetch_before, collect_before valid.2 ends, one]
    simp only [Piece.token?, window_before, warn_before]
    rfl
  | lone c =>
    obtain ⟨blank, hash, alpha, numeral⟩ := lone_classes valid
    have silent (place : Location) (window : Window) :
        (⟨.character c, place, window, none⟩ : Token).warning? = none := rfl
    rw [Piece.chars, List.singleton_append, next_scan (c := c) rfl blank hash, scan,
      if_neg (Bool.eq_false_iff.mp alpha), if_neg (Bool.eq_false_iff.mp numeral), fetch_before]
    simp only [Piece.token?, silent, window_before, Option.toList_none, List.append_nil]
    rfl

/-- The lexer gives the tokens that the scanner finds, and then the one at the end of the text again and again. It
has asked for the character behind a token by then and for none behind that, or once for the end of the text. -/
theorem pulled_before (file : String) (w : Window) {pieces : List Piece} (division : LongestMatch text pieces)
    (reading : w.atEnd = false) (warnings : List String) (i : Nat) :
    let ending := (text.foldl Window.read w).close
    let tokens := Scan.tokens file ending [] (Scan.sitesOf w text)
    let pull := (before file w text w.requests warnings).pulled i
    pull.1 = tokens[i]?.getD ⟨.endOfInput, ⟨file, ending.line, ending.column⟩, ending, none⟩ ∧
      pull.1.window.requests = pull.2.calls ∧
      pull.2.calls = ((lastOffsets w.requests pieces)[i]?.map (· + 2)).getD (w.requests + text.length + 1) ∧
      pull.2.warnings = warnings ++ (tokens.take (i + 1)).filterMap Token.warning? := by
  induction division generalizing w warnings i with
  | done =>
    have nothing : (before file w [] w.requests warnings).held = none := rfl
    rw [pulled_none nothing]
    refine ⟨?_, Window.requests_close reading, rfl, ?_⟩
    · rw [Scan.sitesOf, SitedText.layOut, List.reverse_nil, Scan.tokens_nil]
      rfl
    · rw [Scan.sitesOf, SitedText.layOut, List.reverse_nil, Scan.tokens_nil]
      exact (List.append_nil warnings).symm
  | @more piece text pieces valid longest others ih =>
    intro ending tokens pull
    have ends := valid.longest_iff.mp longest
    have next := next_piece file w valid ends w.requests warnings
    have found : tokens = _ := Scan.tokens_piece valid ends rfl
    have reading' := (Window.atEnd_foldl_read w piece.chars).trans reading
    have ended : ending = (text.foldl Window.read (piece.chars.foldl Window.read w)).close :=
      congrArg Window.close List.foldl_append
    have positive := List.length_pos_iff.mpr piece.chars_ne_nil
    have length : (piece.chars ++ text).length = piece.chars.length + text.length := List.length_append
    specialize ih (piece.chars.foldl Window.read w) reading'
    simp only [← ended, Window.requests_foldl_read] at ih
    rcases piece.token?_cases ⟨file, w.line, w.column⟩ ((piece.chars.foldl Window.read w).peek text) with
      ⟨other, none⟩ | ⟨first, token, some, seen⟩
    · rw [none] at next found
      have same : pull = _ := pulled_congr next i
      rw [same, found, lastOffsets, other, length, ← Nat.add_assoc]
      exact ih warnings i
    · rw [some] at next found
      have warning (rest : List Token) : (token :: rest).filterMap Token.warning? =
          token.warning?.toList ++ rest.filterMap Token.warning? := by
        cases warned : token.warning? <;> simp [warned]
      rw [found, lastOffsets, if_pos first, length, ← Nat.add_assoc]
      cases i with
      | zero =>
        have same : pull = _ := next
        rw [same]
        refine ⟨rfl, ?_, ?_, ?_⟩
        · rw [seen, Window.requests_peek reading', calls_before, Window.requests_foldl_read]
        · rw [calls_before]
          simp
          omega
        · rw [warnings_before]
          exact congrArg (warnings ++ ·) ((warning []).trans (List.append_nil _)).symm
      | succ i =>
        have same : pull = (before file (piece.chars.foldl Window.read w) text (w.requests + piece.chars.length)
            (warnings ++ token.warning?.toList)).pulled i := by
          simp only [pull, pulled, next]
        obtain ⟨said, requests, calls, warned⟩ := ih (warnings ++ token.warning?.toList) i
        rw [same]
        refine ⟨said, requests, calls, ?_⟩
        rw [warned, List.append_assoc, ← warning]
        rfl

theorem next_start (file text : String) :
    (start file text).next = (before file .start text.toList 0 []).next := by
  have fetched : (start file text).fetch = before file .start text.toList 0 [] := by
    simp only [start, before, fetch]
  rw [next_layout (c := ' ') rfl rfl, fetched]

/-- A lexer on a text gives the tokens of the text, and has asked for one character behind each of them. -/
theorem pulled_start (file : String) {text : String} {pieces : List Piece}
    (division : LongestMatch text.toList pieces) (i : Nat) :
    let pull := (start file text).pulled i
    pull.1 = (tokenize file text).tokens[i]?.getD (tokenize file text).final ∧
      pull.1.window.requests = pull.2.calls ∧
      pull.2.calls = ((lastOffsets 0 pieces)[i]?.map (· + 2)).getD (text.toList.length + 1) ∧
      pull.2.warnings = ((tokenize file text).tokens.take (i + 1)).filterMap Token.warning? := by
  have pulls := pulled_before file .start division rfl [] i
  have none : Window.start.requests = 0 := rfl
  rw [none, Nat.zero_add, ← SitedText.ending_ofText] at pulls
  rw [pulled_congr (next_start file text)]
  exact pulls

end Lexer
end Kaleidoscope
