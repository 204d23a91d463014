import Kaleidoscope.Token.Basic

/-!
# Tokens of a text

Blanks and comments separate tokens; of what is left, the longest word or run of digits and points is
one token, and any other character is a token by itself. `tokenize` gives all of them and the token at
the end of the input, which stays the next one for ever.
-/

namespace Kaleidoscope

/-- The blanks between tokens; all other white space is a token. -/
def isLayout (c : Char) : Bool :=
  c == ' ' || c == '\t' || c == '\n' || c == '\x0B' || c == '\x0C' || c == '\r'

/-- A comment stops before the end of its line. -/
def endsComment (c : Char) : Bool := c == '\n' || c == '\r'

def isNumeral (c : Char) : Bool := c.isDigit || c == '.'

/-- Every token of a text but the last, and that one, which stands at the end of the input. -/
structure TokenSequence where
  tokens : List Token
  final : Token
  deriving Repr

namespace Scan

/-- The sites from the next token on: layout and comments are passed over. -/
def skip : List Site → List Site
  | [] => []
  | site :: rest =>
    if isLayout site.char then skip rest
    else if site.char = '#' then skip (rest.dropWhile (!endsComment ·.char))
    else site :: rest
termination_by sites => sites.length
decreasing_by
  · simp
  · exact Nat.lt_succ_of_le (List.dropWhile_suffix _).length_le

def run (inside : Char → Bool) (sites : List Site) : String :=
  String.ofList ((sites.takeWhile (inside ·.char)).map (·.char))

/-- The lexeme that starts with the character of `site`, a misspelt number, and what follows. -/
def lexeme (site : Site) (rest : List Site) : Lexeme × Option String × List Site :=
  if site.char.isAlpha then
    (.ofWord (run Char.isAlphanum (site :: rest)), none, rest.dropWhile (·.char.isAlphanum))
  else if isNumeral site.char then
    let spelling := run isNumeral (site :: rest)
    let literal := Literal.ofText spelling.toList
    (.number literal.value, if literal.isExact then none else some spelling,
      rest.dropWhile (isNumeral ·.char))
  else (.character site.char, none, rest)

/-- What has been read when a token is complete: the site after it too, or the end of the text. -/
def windowBefore (ending : Window) : List Site → Window
  | [] => ending
  | site :: _ => site.window

/-- The first token and what follows it, unless the text ends first. -/
def next? (file : String) (ending : Window) (sites : List Site) : Option (Token × List Site) :=
  match skip sites with
  | [] => none
  | site :: rest =>
    let (lexeme, misspelling, rest) := lexeme site rest
    some (⟨lexeme, ⟨file, site.line, site.column⟩, windowBefore ending rest, misspelling⟩, rest)

theorem length_skip_le (sites : List Site) : (skip sites).length ≤ sites.length := by
  fun_induction skip sites with
  | case1 => simp
  | case2 site rest _ ih => exact Nat.le_succ_of_le ih
  | case3 site rest _ _ ih =>
    exact Nat.le_succ_of_le (Nat.le_trans ih (List.dropWhile_suffix _).length_le)
  | case4 => simp

theorem length_lexeme_le (site : Site) (rest : List Site) :
    (lexeme site rest).2.2.length ≤ rest.length := by
  simp only [lexeme]
  split
  · exact (List.dropWhile_suffix _).length_le
  split
  · exact (List.dropWhile_suffix _).length_le
  · exact Nat.le_refl _

theorem next?_shorter {file : String} {ending : Window} {sites rest : List Site} {token : Token}
    (h : next? file ending sites = some (token, rest)) : rest.length < sites.length := by
  have skipped := length_skip_le sites
  unfold next? at h
  split at h
  · contradiction
  · next site tail same =>
    have left := length_lexeme_le site tail
    simp only [Option.some.injEq, Prod.mk.injEq] at h
    rw [same, List.length_cons] at skipped
    rw [h.2] at left
    omega

/-- All tokens from the sites on, after those already found. -/
def tokens (file : String) (ending : Window) (found : List Token) (sites : List Site) : List Token :=
  match _h : next? file ending sites with
  | none => found.reverse
  | some (token, rest) => tokens file ending (token :: found) rest
termination_by sites.length
decreasing_by exact next?_shorter _h

end Scan

def tokenize (file text : String) : TokenSequence :=
  let laid := SitedText.ofText text
  ⟨Scan.tokens file laid.ending [] laid.sites,
    ⟨.endOfInput, ⟨file, laid.ending.line, laid.ending.column⟩, laid.ending, none⟩⟩

namespace TokenSequence

/-- The tokens that are complete when so many requests for a character have been made. -/
def completeBy (requests : Nat) (tokens : List Token) : List Token :=
  tokens.takeWhile (·.window.requests ≤ requests)

def all (sequence : TokenSequence) : List Token := sequence.tokens ++ [sequence.final]

end TokenSequence
end Kaleidoscope
