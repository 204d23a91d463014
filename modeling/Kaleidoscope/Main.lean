import Kaleidoscope.Command.Run

/-!
# The program

Reads the arguments, the environment and the source, and writes the response. A conversation on the
standard input is answered as it goes on.
-/

namespace Kaleidoscope.Main

def putError (text : String) : IO Unit := do (← IO.getStderr).putStr text

def putNow (text : String) : IO Unit := do
  let output ← IO.getStdout
  output.putStr text
  output.flush

def finish (response : Response) : IO UInt32 := do
  putNow response.output
  putError response.errors
  return response.exit.number.toUInt32

partial def readAll (stream : IO.FS.Stream) (before : ByteArray) : IO ByteArray := do
  let more ← stream.read 65536
  if more.isEmpty then return before else readAll stream (before ++ more)

def readSource (source : String) : IO ByteArray := do
  if source = standardInput then readAll (← IO.getStdin) .empty
  else IO.FS.readBinFile source

/-- Goes on with a conversation of which some text has been answered by `told`. -/
partial def converse (invocation : Invocation) (options : Options) (text told : String) :
    IO UInt32 := do
  let finishBehind (response : Response) : IO UInt32 :=
    finish { response with output := (response.output.drop told.length).toString }
  match ← (← IO.getStdin).getLine.toBaseIO with
  | .error fault =>
    finishBehind (invocation.interrupted .piped options text ("Error: " ++ toString fault ++ "\n"))
  | .ok line =>
    let text := text ++ line
    match if line.isEmpty then none else Invocation.converseSoFar? options text with
    | some now => do
      putNow (now.drop told.length).toString
      converse invocation options text now
    | none => finishBehind (invocation.converse .piped options text)

def invoke (invocation : Invocation) (environment : String → Option String) : IO UInt32 := do
  match invocation.command, invocation.options environment with
  | .converse, .ok options => do
    putNow options.prompt
    converse invocation options "" options.prompt
  | _, _ =>
    try
      let bytes ← readSource invocation.command.source
      finish (invocation.respond environment bytes.toList)
    catch fault => do
      putError ("Error: " ++ toString fault ++ "\n")
      return ExitCode.usageFault.number.toUInt32

end Kaleidoscope.Main

open Kaleidoscope in
def main (args : List String) : IO UInt32 := do
  match Request.ofArguments args with
  | .version => do
    Main.putNow versionLine
    return 0
  | .help => do
    Main.putNow helpText
    return 0
  | .misuse => do
    Main.putError helpText
    return ExitCode.usageFault.number.toUInt32
  | .invoke invocation => do
    let values ← Options.environmentVariables.mapM fun name => return (name, ← IO.getEnv name)
    Main.invoke invocation fun name => (values.lookup name).join
