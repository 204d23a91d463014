import Kaleidoscope.Source.Location
import Kaleidoscope.Source.Site
import Kaleidoscope.Token.Lexeme

/-!
# Tokens

A token is a lexeme with the location of its first character. It keeps the window as it was when the
token was complete, that is, when the character after it or the end of the text had been read.
-/

namespace Kaleidoscope

structure Token where
  lexeme : Lexeme
  location : Location
  window : Window
  /-- The spelling of a number of which only a part, or nothing, could be read. -/
  misspelling : Option String
  deriving DecidableEq, Repr

namespace Token

def isChar (token : Token) (c : Char) : Bool := token.lexeme == .character c

def listing (token : Token) : String :=
  let place := toString token.location.line ++ ":" ++ toString token.location.column ++ ")"
  match token.lexeme.shown? with
  | none => "Token(" ++ token.lexeme.kind ++ ", " ++ place
  | some shown => "Token(" ++ token.lexeme.kind ++ ", " ++ shown ++ ", " ++ place

def description (token : Token) : String := token.lexeme.description

/-- The line a token stands on, as far as it was read when the token was complete. -/
def sourceLine? (token : Token) : Option String := token.window.line? token.location.line

def complaint? (token : Token) : Option String :=
  match token.misspelling, token.lexeme with
  | some spelling, .number value =>
    some ("malformed number '" ++ spelling ++ "' read as " ++ value.briefText)
  | _, _ => none

def warning? (token : Token) : Option String :=
  token.complaint?.map fun complaint => token.location.text ++ ": warning: " ++ complaint

def remark? (token : Token) : Option String :=
  token.complaint?.map fun complaint => token.location.text ++ ": " ++ complaint

end Token
end Kaleidoscope
