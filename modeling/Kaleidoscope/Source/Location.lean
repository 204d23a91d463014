/-!
# Locations

A location names a file, a line and a column. Lines and columns of a text count from one; one that is
made by hand may hold any numbers.
-/

namespace Kaleidoscope

structure Location where
  file : String
  line : Int
  column : Int
  deriving DecidableEq, Repr, Inhabited

def Location.text (loc : Location) : String :=
  loc.file ++ ":" ++ toString loc.line ++ ":" ++ toString loc.column

end Kaleidoscope
