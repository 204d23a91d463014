import Kaleidoscope.Command.Host
import Kaleidoscope.Command.Invocation
import Kaleidoscope.Session.Log
import Kaleidoscope.Session.Transcript
import Kaleidoscope.Text.Newline
import Kaleidoscope.Text.Utf8
import Kaleidoscope.Tree.Dump
import Kaleidoscope.Tree.Spelling

/-!
# Execution

What each command makes of the bytes of its source under an environment, on any host. Formatting writes the
whole program or nothing, while parsing lists what could be read even if not all could.
-/

namespace Kaleidoscope

def sourceName (source : String) : String :=
  if source = standardInput then "<stdin>" else source

/-- The text of a source, whose line ends may have any form. -/
def sourceText (bytes : List UInt8) : Except Failure String :=
  match Text.Utf8.decode bytes with
  | .ok text => .ok (Text.unifyLineEnds text)
  | .error fault => .error (.unforeseen fault.message)

namespace Invocation

def logText (invocation : Invocation) (lines : List LogLine) : String :=
  linesText (lines.filterMap (LogLine.shown? invocation.verbose))

structure Perusal where
  log : List LogLine
  report : Report

/-- Reads a program under the options of the command, or fails with the log so far. -/
def read (invocation : Invocation) (environment : String → Option String) (source : String)
    (bytes : List UInt8) : Except (List LogLine × Failure) Perusal :=
  match invocation.options environment with
  | .error fault => .error ([], .configuration fault.message)
  | .ok options =>
    let first := LogLine.debug ("precedence table: " ++ OperatorSpec.write options.table)
    match sourceText bytes with
    | .error failure => .error ([first], failure)
    | .ok text =>
      let start := Session.start options (sourceName source) text
      let (run, session) := start.run
      .ok ⟨first :: Log.ofRun start.parser.sequence.tokens run, .ofRun run session⟩

section On

variable (host : Host)

def fail (invocation : Invocation) (log : List LogLine) (failure : Failure) : Response :=
  ⟨failure.exit, "", invocation.logText log ++ (failure.answer host).errors⟩

/-- The diagnostics on the standard error: the report if there are errors, and else the warnings. -/
def diagnostics (report : Report) : String :=
  if report.isOk then echoed host.errors report.findings.warnings
  else echoed host.errors [report.findings.report]

def parse (invocation : Invocation) (environment : String → Option String) (source : String)
    (dump : Bool) (bytes : List UInt8) : Response :=
  match invocation.read environment source bytes with
  | .error (log, failure) => invocation.fail host log failure
  | .ok reading =>
    let entities := reading.report.entities
    let listing := echoed host.output (entities.map fun e => if dump then e.dump else e.summary)
    let errors := invocation.logText reading.log ++ diagnostics host reading.report
    if reading.report.isOk then
      let count := "Parsed " ++ toString entities.length ++ " entities from " ++ sourceName source
      ⟨.success, listing ++ (if invocation.verbose then echoed host.output [count] else ""), errors⟩
    else ⟨.sourceFault, listing, errors⟩

def format (invocation : Invocation) (environment : String → Option String) (source : String)
    (bytes : List UInt8) : Response :=
  match invocation.read environment source bytes with
  | .error (log, failure) => invocation.fail host log failure
  | .ok reading =>
    let errors := invocation.logText reading.log ++ diagnostics host reading.report
    if reading.report.isOk then
      match programSpelling reading.report.entities with
      | .ok program => ⟨.success, host.output program, errors⟩
      | .error fault =>
        let failure := Failure.source fault.message
        ⟨failure.exit, "", errors ++ (failure.answer host).errors⟩
    else ⟨.sourceFault, "", errors⟩

/-- The tokens of a source, which no option or environment affects. -/
def tokens (invocation : Invocation) (source : String) (bytes : List UInt8) : Response :=
  match sourceText bytes with
  | .error failure => invocation.fail host [] failure
  | .ok text =>
    let sequence := tokenize (sourceName source) text
    ⟨.success, echoed host.output (sequence.all.map Token.listing),
      invocation.logText (Log.remarks sequence.tokens) ++
        echoed host.errors (sequence.tokens.filterMap Token.warning?)⟩

def conversation (options : Options) (text : String) : Session × Run × Session :=
  let start := Session.start options (sourceName standardInput) (Text.unifyLineEnds text)
  (start, start.run)

/-- The response to a whole conversation. Errors in the source are no failure of the command. -/
def converse (invocation : Invocation) (options : Options) (text : String) : Response :=
  let (start, run, session) := conversation options text
  let report := Report.ofRun run session
  let count := toString report.entities.length ++ " entities, " ++
    toString report.findings.errors.length ++ " errors"
  ⟨.success,
    run.told ⟨true, true⟩ options.prompt ++
      (if invocation.verbose then echoed host.output [count] else ""),
    invocation.logText (Log.ofRun start.parser.sequence.tokens run)⟩

/-- What to write by now if more text may follow, or nothing if the conversation has ended anyway. -/
def converseSoFar? (options : Options) (text : String) : Option String :=
  let (_, run, _) := conversation options text
  if run.stoppedForGood then none else some (run.toldSoFar ⟨true, true⟩ options.prompt)

/-- The response to a conversation that breaks off behind the text, with what is said of that. It makes
no difference to one that has ended before. -/
def interrupted (invocation : Invocation) (options : Options) (text fault : String) : Response :=
  let (start, run, _) := conversation options text
  if run.stoppedForGood then invocation.converse host options text
  else
    ⟨.sourceFault, String.join (run.begun.map (Step.told ⟨true, true⟩ options.prompt)),
      invocation.logText (Log.ofSteps (start.parser.sequence.tokens.filter (!·.window.atEnd)) run.begun) ++
        fault⟩

def execute (invocation : Invocation) (environment : String → Option String) (bytes : List UInt8) :
    Response :=
  match invocation.command with
  | .parse source dump => invocation.parse host environment source dump bytes
  | .tokens source => invocation.tokens host source bytes
  | .format source => invocation.format host environment source bytes
  | .converse =>
    match invocation.options environment with
    | .error fault => invocation.fail host [] (.configuration fault.message)
    | .ok options =>
      let incoming := host.incoming bytes
      match incoming.fault? with
      | none => invocation.converse host options incoming.text
      | some fault => invocation.interrupted host options incoming.text fault

end On

end Invocation
end Kaleidoscope
