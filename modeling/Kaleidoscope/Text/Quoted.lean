import Kaleidoscope.Text.Printable

/-!
# Quoted text

A quoted text can be shown on one line: it stands between single quotes, or between double quotes if
it holds a single quote and no double one. Backslashes, the enclosing quote, line ends and tabs get a
backslash; other characters that are not printable are written by code point.
-/

namespace Kaleidoscope.Text

/-- The last `width` hexadecimal digits of a number, leading zeros included. -/
def hexDigits : (width n : Nat) → String
  | 0, _ => ""
  | width + 1, n => hexDigits width (n / 16) ++ (Nat.digitChar (n % 16)).toString

/-- A character by code point, in the narrowest of the three widths that holds it. -/
def codePointEscape (c : Char) : String :=
  let n := c.toNat
  if n < 0x100 then "\\x" ++ hexDigits 2 n
  else if n < 0x10000 then "\\u" ++ hexDigits 4 n
  else "\\U" ++ hexDigits 8 n

def quotedChar (quote c : Char) : String :=
  if c == quote || c == '\\' then "\\" ++ c.toString
  else if c == '\n' then "\\n"
  else if c == '\r' then "\\r"
  else if c == '\t' then "\\t"
  else if isPrintable c then c.toString
  else codePointEscape c

def quoted (text : String) : String :=
  let quote := if text.contains '\'' && !text.contains '"' then '"' else '\''
  quote.toString ++ String.join (text.toList.map (quotedChar quote)) ++ quote.toString

end Kaleidoscope.Text
