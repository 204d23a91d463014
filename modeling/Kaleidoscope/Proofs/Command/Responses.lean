import Kaleidoscope.Proofs.Command.Validity
import Kaleidoscope.Proofs.Grammar.WellFormed
import Kaleidoscope.Proofs.Session.Readable
import Kaleidoscope.Proofs.Tree.Plain

/-! What the commands that read a program respond. Listing and formatting read it in the same way, so they fail
together; only formatting can fail once more, and then it writes nothing. -/
namespace Kaleidoscope

open Text.Terminal

/-- What is documented of putting out messages: one in which no control sequence starts appears as it is. -/
structure Host.Faithful (host : Host) : Prop where
  output : ∀ text : String, ¬ introducer <:+: text.toList → host.output text = text
  errors : ∀ text : String, ¬ introducer <:+: text.toList → host.errors text = text

namespace Log

theorem debug_of_mem_ofSteps {unseen : List Token} {steps : List Step} {line : LogLine}
    (member : line ∈ ofSteps unseen steps) : ∃ text, line = .debug text := by
  have remark {tokens : List Token} (member : line ∈ remarks tokens) : ∃ text, line = .debug text := by
    obtain ⟨text, -, rfl⟩ := List.mem_map.mp member
    exact ⟨text, rfl⟩
  have verdict {step : Step} (member : line ∈ step.verdictLines) : ∃ text, line = .debug text := by
    unfold Step.verdictLines at member
    split at member
    all_goals simp only [List.not_mem_nil, List.mem_cons, or_false] at member
    · exact ⟨_, member⟩
    · exact member.elim (fun same => ⟨_, same⟩) fun same => ⟨_, same⟩
    · exact member.elim (fun same => ⟨_, same⟩) fun same => ⟨_, same⟩
  induction steps generalizing unseen with
  | nil => cases member
  | cons step steps ih =>
    cases resumed : step.resumed? with
    | none =>
      simp only [ofSteps, resumed, List.mem_append] at member
      rcases member with (read | judged) | later
      · exact remark read
      · exact verdict judged
      · exact ih later
    | some next =>
      simp only [ofSteps, resumed, List.mem_append, List.mem_cons] at member
      rcases member with ((read | judged) | dropped) | rfl | later
      · exact remark read
      · exact verdict judged
      · exact remark dropped
      · exact ⟨_, rfl⟩
      · exact ih later

end Log

/-- The line that the log always has, if the error limit ends the run. -/
def Report.haltLines (report : Report) (limit : Nat) : List String :=
  if report.stopped then ["stopping after " ++ toString limit ++ " errors"] else []

def Report.diagnosticLines (report : Report) : List String :=
  if report.isOk then report.findings.warnings else [report.findings.report]

/-- Lines in which no control sequence starts appear as they are; a line feed starts none. -/
theorem echoed_eq {echo : String → String} (faithful : ∀ text : String, ¬ introducer <:+: text.toList → echo text = text)
    {lines : List String} (free : ∀ line ∈ lines, ¬ introducer <:+: line.toList) : echoed echo lines = linesText lines := by
  refine congrArg String.join (List.map_congr_left fun line member => faithful _ ?_)
  have ended : (line ++ "\n").toList = line.toList ++ ['\n'] := String.toList_append
  intro inside
  rw [ended] at inside
  rcases List.infix_concat_iff.mp inside with ⟨before, same⟩ | within
  · have last := congrArg List.getLast? same
    simp [introducer] at last
  · exact free line member within

theorem Unspellable.inert_message (fault : Unspellable) : Inert fault.message.toList := by
  have figures : '[' ∉ fault.value.fullText.toList := by
    intro member
    simpa [Decimal.IsFigure] using Double.isFigure_of_mem_fullText member
  apply inert_of_notMem
  simp [message, figures]

namespace Invocation

variable {host : Host} {invocation : Invocation} {environment : String → Option String} {source text : String}
  {bytes : List UInt8} {options : Options}

theorem read_of_options (accepted : invocation.options environment = .ok options)
    (decoded : Text.Utf8.decode bytes = .ok text) (quiet : invocation.verbose = false) :
    ∃ log, invocation.read environment source bytes =
        .ok ⟨log, parseProgram options (sourceName source) (Text.unifyLineEnds text)⟩ ∧
      invocation.logText log = linesText
        ((parseProgram options (sourceName source) (Text.unifyLineEnds text)).haltLines options.errorLimit) := by
  let s := Session.start options (sourceName source) (Text.unifyLineEnds text)
  let first := LogLine.debug ("precedence table: " ++ OperatorSpec.write options.table)
  refine ⟨first :: Log.ofRun s.parser.sequence.tokens s.run.1, ?_, ?_⟩
  · rw [read, accepted, sourceText, decoded]
    rfl
  · have silent : (Log.ofSteps s.parser.sequence.tokens s.run.1.steps).filterMap (LogLine.shown? false) = [] := by
      rw [List.filterMap_eq_nil_iff]
      intro line member
      obtain ⟨text, rfl⟩ := Log.debug_of_mem_ofSteps member
      rfl
    have halted : s.run.1.stopped = true → s.run.1.errors.length = options.errorLimit := by
      intro halted
      have many := s.run_eq_cut.2.1.mp halted
      rw [Step.countP_fails] at many
      rw [s.run_errors, List.length_take]
      exact Nat.min_eq_left many
    have report : (parseProgram options (sourceName source) (Text.unifyLineEnds text)).stopped = s.run.1.stopped := rfl
    rw [logText, quiet, Report.haltLines, report, Log.ofRun, List.filterMap_cons, List.filterMap_append, silent]
    by_cases stopped : s.run.1.stopped = true
    · simp [first, LogLine.shown?, stopped, halted stopped]
    · simp [first, LogLine.shown?, stopped]

theorem diagnostics_eq (host : Host) (report : Report) :
    diagnostics host report = echoed host.errors report.diagnosticLines := by
  unfold diagnostics Report.diagnosticLines
  split <;> rfl

def running (invocation : Invocation) (command : Command) : Invocation := { invocation with command := command }

/-- A line for each entity: its summary, or its dump, which has several lines itself. -/
def listing (dump : Bool) (report : Report) : List String :=
  report.entities.map fun entity => if dump then entity.dump else entity.summary

/-- What is said on the standard error: that the error limit was reached, and what was found. -/
def account (host : Host) (options : Options) (report : Report) : String :=
  linesText (report.haltLines options.errorLimit) ++ echoed host.errors report.diagnosticLines

theorem parse_of_read (host : Host) {reading : Perusal}
    (read : invocation.read environment source bytes = .ok reading) (quiet : invocation.verbose = false) (dump : Bool) :
    invocation.parse host environment source dump bytes =
      ⟨if reading.report.isOk then .success else .sourceFault, echoed host.output (listing dump reading.report),
        invocation.logText reading.log ++ echoed host.errors reading.report.diagnosticLines⟩ := by
  rw [parse, read]
  dsimp only
  rw [diagnostics_eq, ← listing, quiet]
  split <;> simp

theorem format_of_read (host : Host) {reading : Perusal}
    (read : invocation.read environment source bytes = .ok reading) :
    let errors := invocation.logText reading.log ++ echoed host.errors reading.report.diagnosticLines
    invocation.format host environment source bytes =
      if reading.report.isOk then
        match programSpelling reading.report.entities with
        | .ok program => ⟨.success, host.output program, errors⟩
        | .error fault => ⟨.sourceFault, "", errors ++ echoed host.errors ["Error: " ++ fault.message]⟩
      else ⟨.sourceFault, "", errors⟩ := by
  rw [format, read]
  dsimp only
  rw [diagnostics_eq]
  rfl

section Accepted

variable (faithful : host.Faithful) (accepted : invocation.options environment = .ok options)
  (decoded : Text.Utf8.decode bytes = .ok text) (quiet : invocation.verbose = false)

include faithful accepted decoded quiet

/-- The listing has whatever could be read; the exit code tells whether that was all. -/
theorem execute_parse (source : String) (dump : Bool) :
    let report := parseProgram options (sourceName source) (Text.unifyLineEnds text)
    (invocation.running (.parse source dump)).execute host environment bytes =
      ⟨if report.isOk then .success else .sourceFault, linesText (listing dump report),
        account host options report⟩ := by
  intro report
  obtain ⟨log, read, shown⟩ :
      ∃ log, (invocation.running (.parse source dump)).read environment source bytes = .ok ⟨log, report⟩ ∧
        (invocation.running (.parse source dump)).logText log = linesText (report.haltLines options.errorLimit) :=
    read_of_options accepted decoded quiet
  have free : ∀ line ∈ listing dump report, ¬ introducer <:+: line.toList := by
    intro line member
    obtain ⟨entity, given, rfl⟩ := List.mem_map.mp member
    have within := (readable_parseProgram _ _ _ entity given).listed
    cases dump
    · exact (Entity.inert_summary within).free
    · exact (Entity.inert_dump within).free
  have response := parse_of_read host read quiet dump
  rw [shown, echoed_eq faithful.output free] at response
  exact response

theorem execute_format (source : String) :
    let report := parseProgram options (sourceName source) (Text.unifyLineEnds text)
    (invocation.running (.format source)).execute host environment bytes =
      if report.isOk then
        match programSpelling report.entities with
        | .ok program => ⟨.success, program, account host options report⟩
        | .error fault => ⟨.sourceFault, "", account host options report ++ linesText ["Error: " ++ fault.message]⟩
      else ⟨.sourceFault, "", account host options report⟩ := by
  intro report
  obtain ⟨log, read, shown⟩ :
      ∃ log, (invocation.running (.format source)).read environment source bytes = .ok ⟨log, report⟩ ∧
        (invocation.running (.format source)).logText log = linesText (report.haltLines options.errorLimit) :=
    read_of_options accepted decoded quiet
  have response := format_of_read host read
  rw [shown] at response
  change (invocation.running (.format source)).format host environment source bytes = _
  refine response.trans ?_
  cases spelt : programSpelling report.entities with
  | ok program =>
    have within : ∀ entity ∈ report.entities, entity.Within listed :=
      fun entity given => (readable_parseProgram _ _ _ entity given).listed
    have unchanged : host.output program = program := faithful.output _ (inert_programSpelling within spelt).free
    simp [unchanged, report, account]
  | error fault =>
    have inert : Inert ("Error: " ++ fault.message).toList := by
      rw [String.toList_append]
      exact (inert_of_notMem (by simp)).append fault.inert_message
    have unchanged : echoed host.errors ["Error: " ++ fault.message] = linesText ["Error: " ++ fault.message] :=
      echoed_eq faithful.errors (List.forall_mem_singleton.mpr inert.free)
    simp [unchanged, report, account]

end Accepted

end Invocation

open Invocation

/-- Listing and formatting agree on what is in order. If the configuration is not, both say so in the same way and write
nothing else. Otherwise both read the same program: the listing has a part for each entity, and the exit code says
whether there were errors; formatting writes the canonical text of all entities if there were none and each entity has
one, and nothing if not. Both account for what was found on the standard error, line by line as the host puts it out;
lines in which no control sequence starts appear as they are. -/
theorem commands_agree {host : Host} (faithful : host.Faithful) (invocation : Invocation)
    (quiet : invocation.verbose = false) (environment : String → Option String) (source : String) (dump : Bool)
    {bytes : List UInt8} {text : String} (decoded : Text.Utf8.decode bytes = .ok text) :
    let parse := (invocation.running (.parse source dump)).execute host environment bytes
    let format := (invocation.running (.format source)).execute host environment bytes
    (¬ invocation.Configured environment → ∃ fault : ConfigurationFault, parse = format ∧
      format = ⟨.usageFault, "", host.errors ("Configuration error: " ++ fault.message ++ "\n")⟩) ∧
    (invocation.Configured environment → ∃ options, invocation.options environment = .ok options ∧
      let report := parseProgram options (sourceName source) (Text.unifyLineEnds text)
      let log := linesText (report.haltLines options.errorLimit)
      let found := if report.isOk then report.findings.warnings else [report.findings.report]
      let errors := log ++ echoed host.errors found
      let listing := linesText (report.entities.map fun entity => if dump then entity.dump else entity.summary)
      parse = ⟨if report.isOk then .success else .sourceFault, listing, errors⟩ ∧
      (report.isOk = false → format = ⟨.sourceFault, "", errors⟩) ∧
      (report.isOk = true → (∀ entity ∈ report.entities, ∃ text, entity.spelling = .ok text) →
        ∃ program, programSpelling report.entities = .ok program ∧ format = ⟨.success, program, errors⟩) ∧
      (report.isOk = true → (∃ entity ∈ report.entities, ∃ fault, entity.spelling = .error fault) →
        ∃ fault, programSpelling report.entities = .error fault ∧
          format = ⟨.sourceFault, "", errors ++ linesText ["Error: " ++ fault.message]⟩) ∧
      ((∀ line ∈ found, ¬ introducer <:+: line.toList) → errors = log ++ linesText found)) := by
  intro parse format
  constructor
  · intro wrong
    cases judged : invocation.options environment with
    | ok options => exact absurd ((exists_options_iff invocation environment).mp ⟨options, judged⟩) wrong
    | error fault =>
      have refused (command : Command) : (invocation.running command).options environment = .error fault := judged
      have listed : parse = (Failure.configuration fault.message).answer host :=
        execute_of_fault (refused _) (by simp [running]) bytes
      have formatted : format = (Failure.configuration fault.message).answer host :=
        execute_of_fault (refused _) (by simp [running]) bytes
      exact ⟨fault, listed.trans formatted.symm, formatted⟩
  · intro sound
    obtain ⟨options, accepted⟩ := (exists_options_iff invocation environment).mpr sound
    refine ⟨options, accepted, ?_⟩
    intro report log found errors listing
    have listed : parse = _ := execute_parse faithful accepted decoded quiet source dump
    have formatted : format = _ := execute_format faithful accepted decoded quiet source
    refine ⟨listed, ?_, ?_, ?_, ?_⟩
    · intro failed
      exact formatted.trans (if_neg (by simp [report, failed]))
    · intro ok each
      obtain ⟨program, spelt⟩ : ∃ program, programSpelling report.entities = .ok program :=
        exists_programSpelling_iff.mpr fun entity given => Entity.exists_spelling_iff.mp (each entity given)
      refine ⟨program, spelt, formatted.trans ((if_pos ok).trans ?_)⟩
      rw [spelt]
      rfl
    · intro ok some
      obtain ⟨fault, spelt⟩ : ∃ fault, programSpelling report.entities = .error fault :=
        exists_programFault_iff.mpr some
      refine ⟨fault, spelt, formatted.trans ((if_pos ok).trans ?_)⟩
      rw [spelt]
      rfl
    · intro free
      exact congrArg (log ++ ·) (echoed_eq faithful.errors free)

namespace Text.Terminal

theorem plainFrom_of_free {found text : List Char} (free : ¬ introducer <:+: text) :
    plainFrom found text = found.reverse ++ text := by
  induction found, text using plainFrom.induct with
  | case1 found => simp [plainFrom]
  | case2 found rest _ _ _ | case3 found rest _ _ => exact absurd ⟨[], rest, rfl⟩ free
  | case4 found c rest other ih =>
    rw [plainFrom, ih fun inside => free (List.infix_cons inside)]
    · simp
    · exact other

end Text.Terminal

theorem Host.faithful_piped : Host.piped.Faithful := by
  have plain (text : String) (free : ¬ introducer <:+: text.toList) : Text.Terminal.plain text = text := by
    rw [Text.Terminal.plain, plainFrom_of_free free]
    simp
  exact ⟨plain, plain⟩

/-- A variable is listed and formatted, unless a configuration that is not in order keeps both from reading it. -/
theorem commands_agree_on_variable :
    let invocation : Invocation := ⟨false, [], false, none, by decide, .converse⟩
    let unset : String → Option String := fun _ => none
    let many : String → Option String := fun name => if name = "KALEIDO_MAX_ERRORS" then some "many" else none
    let dump := invocation.running (.parse "-" true)
    let format := invocation.running (.format "-")
    invocation.Configured unset ∧ dump.respond unset [0x78] = ⟨.success, "TopLevelExpr\n  Variable: x\n", ""⟩ ∧
      format.respond unset [0x78] = ⟨.success, "x;\n", ""⟩ ∧
      ¬ invocation.Configured many ∧ dump.respond many [0x78] = format.respond many [0x78] := by
  intro invocation unset many dump format
  have decoded : Text.Utf8.decode [0x78] = .ok "x" := by decide +kernel
  have sound : invocation.Configured unset := ⟨by simp [unset], by simp [Options.LimitUsable, unset], by simp [invocation]⟩
  have wrong : ¬ invocation.Configured many := by
    intro sound
    have illegible : Text.integer? "many" = none := by decide
    rcases sound.limit "many" rfl with empty | ⟨limit, read, -⟩
    · exact absurd empty (by decide)
    · cases illegible.symm.trans read
  obtain ⟨-, run⟩ := commands_agree Host.faithful_piped invocation rfl unset "-" true decoded
  obtain ⟨fail, -⟩ := commands_agree Host.faithful_piped invocation rfl many "-" true decoded
  obtain ⟨options, accepted, listed, -, formatted, -, -⟩ := run sound
  have standard : invocation.options unset = .ok .standard := rfl
  obtain rfl : Options.standard = options := Except.ok.inj (standard.symm.trans accepted)
  obtain ⟨_, same, -⟩ := fail wrong
  have spelt : programSpelling (parseProgram .standard (sourceName "-") (Text.unifyLineEnds "x")).entities =
      .ok "x;\n" := by decide +kernel
  have each := exists_programSpelling_iff.mp ⟨_, spelt⟩
  obtain ⟨program, same', response⟩ := formatted (by decide +kernel)
    fun entity given => Entity.exists_spelling_iff.mpr (each entity given)
  obtain rfl := Except.ok.inj (spelt.symm.trans same')
  exact ⟨sound, listed.trans (by decide +kernel), response.trans (by decide +kernel), wrong, same⟩

/-- An error in a line with a control sequence is not put out as it stands in the report where such sequences are
removed. -/
theorem report_without_control_sequence :
    let invocation : Invocation := ⟨false, [], false, none, by decide, .parse "-" false⟩
    let unset : String → Option String := fun _ => none
    let report := parseProgram .standard "<stdin>" "(#\x1b[m"
    Text.Utf8.decode [0x28, 0x23, 0x1B, 0x5B, 0x6D] = .ok "(#\x1b[m" ∧ invocation.options unset = .ok .standard ∧
      report.isOk = false ∧ report.stopped = false ∧ Host.piped.Faithful ∧
      (invocation.execute .piped unset [0x28, 0x23, 0x1B, 0x5B, 0x6D]).errors ≠ linesText [report.findings.report] := by
  intro invocation unset report
  exact ⟨by decide +kernel, rfl, by decide +kernel, by decide +kernel, Host.faithful_piped, by decide +kernel⟩

end Kaleidoscope
