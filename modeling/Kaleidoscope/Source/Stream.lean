/-!
# Streams

A stream hands over its text piece by piece and marks its end by an empty piece. Whatever it would
hand over after the first empty piece is never asked for.
-/

namespace Kaleidoscope.Stream

def delivered (pieces : List String) : List String :=
  pieces.takeWhile (!·.isEmpty)

def text (pieces : List String) : String :=
  String.join (delivered pieces)

/-- The answers to so many requests: past the end each is the empty piece. -/
def reads (pieces : List String) (count : Nat) : List String :=
  (delivered pieces).take count ++ List.replicate (count - (delivered pieces).length) ""

/-- The pieces of a text that is handed over one character at a time. -/
def ofText (text : String) : List String :=
  text.toList.map Char.toString

end Kaleidoscope.Stream
