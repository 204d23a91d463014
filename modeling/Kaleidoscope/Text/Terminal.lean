/-!
# Terminal control sequences

A control sequence is an escape character and an opening bracket, digits, semicolons and question
marks, and a letter. Messages are written without those that the text they quote may hold, so that it
cannot change how a terminal shows them.
-/

namespace Kaleidoscope.Text.Terminal

def isParameter (c : Char) : Bool := c.isDigit || c == ';' || c == '?'

/-- What follows a control sequence whose escape character and bracket have been passed. -/
def behindSequence? (text : List Char) : Option (List Char) :=
  match text.dropWhile isParameter with
  | [] => none
  | c :: rest => if c.isAlpha then some rest else none

theorem length_behindSequence?_lt {text rest : List Char} (h : behindSequence? text = some rest) :
    rest.length < text.length := by
  have shorter := (List.dropWhile_suffix (l := text) isParameter).length_le
  unfold behindSequence? at h
  split at h
  · contradiction
  · next c tail same =>
    rw [same, List.length_cons] at shorter
    split at h
    · rw [← Option.some.inj h]; exact shorter
    · contradiction

/-- The text without its control sequences, after the characters already found, the latest first. -/
def plainFrom (found text : List Char) : List Char :=
  match text with
  | [] => found.reverse
  | '\x1B' :: '[' :: rest =>
    match _h : behindSequence? rest with
    | some behind => plainFrom found behind
    | none => plainFrom ('\x1B' :: found) ('[' :: rest)
  | c :: rest => plainFrom (c :: found) rest
termination_by text.length
decreasing_by
  · exact Nat.lt_trans (length_behindSequence?_lt _h) (Nat.lt_succ_of_lt (Nat.lt_succ_self _))
  · exact Nat.lt_succ_self _
  · exact Nat.lt_succ_self _

def plain (text : String) : String := String.ofList (plainFrom [] text.toList)

end Kaleidoscope.Text.Terminal
