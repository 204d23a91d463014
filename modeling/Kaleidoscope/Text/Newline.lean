/-!
# Line ends

A line of a file may end in a line feed, a carriage return, or both in the order return and feed. Only
the line feed is seen by what reads the file.
-/

namespace Kaleidoscope.Text

/-- Every line end as a line feed, after the characters already found, the latest first. -/
def unifyFrom (found : List Char) : List Char → List Char
  | [] => found.reverse
  | '\r' :: '\n' :: rest => unifyFrom ('\n' :: found) rest
  | '\r' :: rest => unifyFrom ('\n' :: found) rest
  | c :: rest => unifyFrom (c :: found) rest

def unifyLineEnds (text : String) : String := String.ofList (unifyFrom [] text.toList)

end Kaleidoscope.Text
