import Kaleidoscope.Command.Execution
import Kaleidoscope.Command.Request
import Kaleidoscope.Text.Terminal

/-!
# Runs

The commands with their output and input redirected. Messages lose their control sequences, and input
is decoded in pieces: one that cannot be decoded is lost as a whole.
-/

namespace Kaleidoscope

def versionLine : String := "kaleido, version 1.0.0\n"

def helpText : String :=
  "Usage: kaleido [-v] [--op OP:PREC] [--check-arity] [--max-errors N] COMMAND\n\n" ++
    "Commands:\n" ++
    "  parse [--ast] SOURCE  list the entities of SOURCE, or dump their trees\n" ++
    "  tokens SOURCE         list the tokens of SOURCE\n" ++
    "  fmt SOURCE            write SOURCE in canonical form\n" ++
    "  repl                  read entities from the standard input as they are typed\n"

namespace Host

/-- How many bytes are decoded at a time. -/
def pieceSize : Nat := 8192

/-- How many bytes stand before the piece whose decoding shows the fault. -/
def soundLength (bytes : List UInt8) (fault : Text.Utf8.Fault) : Nat :=
  match fault.reason with
  | .startByte => fault.position / pieceSize * pieceSize
  | .continuationByte => (fault.position + fault.length) / pieceSize * pieceSize
  | .endOfData => bytes.length

/-- The text of the pieces before a fault, up to the last character that is complete. A carriage return
at their end waits for what comes behind it. -/
def soundText (bytes : List UInt8) (fault : Text.Utf8.Fault) : String :=
  let sound := bytes.take (soundLength bytes fault)
  let text := match Text.Utf8.decode sound with
    | .ok text => text
    | .error fault => ((Text.Utf8.decode (sound.take fault.position)).toOption).getD ""
  if text.endsWith "\r" then (text.dropEnd 1).toString else text

def piped : Host where
  output := Text.Terminal.plain
  errors := Text.Terminal.plain
  incoming bytes :=
    match Text.Utf8.decode bytes with
    | .ok text => ⟨text, none⟩
    | .error fault => ⟨soundText bytes fault, some ("Error: " ++ fault.message ++ "\n")⟩

end Host

def Failure.response (failure : Failure) : Response := failure.answer .piped

def Invocation.respond (invocation : Invocation) (environment : String → Option String)
    (bytes : List UInt8) : Response :=
  invocation.execute .piped environment bytes

end Kaleidoscope
