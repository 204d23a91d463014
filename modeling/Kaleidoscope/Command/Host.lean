import Kaleidoscope.Command.Response

/-!
# Hosts

What the program runs on. A message is put out by way of the host, which may change it for the stream
that it goes to, as where a terminal is not to see control sequences. A conversation gets its text from
the host as well.
-/

namespace Kaleidoscope

/-- What can be read of some input. -/
structure Incoming where
  text : String
  /-- What is said on the standard error if no more can be read behind the text although more is there. -/
  fault? : Option String

structure Host where
  /-- What a message put out on the standard output makes appear there. -/
  output : String → String
  /-- The same for the standard error. -/
  errors : String → String
  incoming : List UInt8 → Incoming

/-- What lines put out one by one make appear. -/
def echoed (echo : String → String) (lines : List String) : String :=
  String.join (lines.map fun line => echo (line ++ "\n"))

def Failure.answer (host : Host) (failure : Failure) : Response :=
  ⟨failure.exit, "", echoed host.errors [failure.text]⟩

end Kaleidoscope
