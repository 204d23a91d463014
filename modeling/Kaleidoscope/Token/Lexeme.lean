import Kaleidoscope.Number.Literal
import Kaleidoscope.Text.Quoted

/-!
# Lexemes

A lexeme is what a token says, wherever it stands: one of the two keywords, an identifier, a number,
any other single character, or the end of the input.
-/

namespace Kaleidoscope

inductive Lexeme where
  | defKeyword
  | externKeyword
  | identifier (name : String)
  | number (value : Double)
  | character (c : Char)
  | endOfInput
  deriving DecidableEq, Repr, Inhabited

namespace Lexeme

/-- A whole word is a keyword or an identifier. -/
def ofWord (word : String) : Lexeme :=
  if word = "def" then .defKeyword
  else if word = "extern" then .externKeyword
  else .identifier word

def kind : Lexeme → String
  | .defKeyword => "DEF"
  | .externKeyword => "EXTERN"
  | .identifier _ => "IDENTIFIER"
  | .number _ => "NUMBER"
  | .character _ => "CHAR"
  | .endOfInput => "EOF"

/-- The text of a lexeme; the end of the input has none. -/
def text : Lexeme → String
  | .defKeyword => "def"
  | .externKeyword => "extern"
  | .identifier name => name
  | .number value => value.fullText
  | .character c => c.toString
  | .endOfInput => ""

/-- The text of a lexeme as the token listing shows it: a number bare and all else quoted. -/
def shown? : Lexeme → Option String
  | .endOfInput => none
  | .number value => some value.fullText
  | lexeme => some (Text.quoted lexeme.text)

def description : Lexeme → String
  | .endOfInput => "end of input"
  | .number value => "number " ++ value.briefText
  | .identifier name => "identifier '" ++ name ++ "'"
  | .character c =>
    if Text.isPrintable c then "'" ++ c.toString ++ "'" else "character " ++ Text.quoted c.toString
  | lexeme => "'" ++ lexeme.text ++ "'"

def char? : Lexeme → Option Char
  | .character c => some c
  | _ => none

end Lexeme
end Kaleidoscope
