import Kaleidoscope.Command.Run
import Kaleidoscope.Proofs.Command.OperatorLists

/-! Settings of the command line over those of the environment. The environment is judged first, whatever the command
line gives; of an environment that is in order, a setting that the command line gives as well does not show. -/
namespace Kaleidoscope

namespace Options

variable {environment other : String → Option String}

/-- The environments differ in this variable at most. -/
def AgreeBut (name : String) (environment other : String → Option String) : Prop :=
  ∀ key, key ≠ name → environment key = other key

/-- The value, if there is one, is empty or a positive integer. -/
def LimitUsable (value? : Option String) : Prop :=
  ∀ text ∈ value?, text = "" ∨ ∃ limit, Text.integer? text = some limit ∧ 1 ≤ limit

def checks (environment : String → Option String) : Bool :=
  ((environment "KALEIDO_CHECK_ARITY").map isAffirmative).getD standard.checkCalls

def limited : Option Int → Except ConfigurationFault Options
  | none => .ok standard
  | some limit => standard.withErrorLimit limit

/-- Of the three variables, the operator list is judged first and then the error limit; the third is always in order. -/
theorem ofEnvironment_eq (environment : String → Option String) : ofEnvironment environment {} = (do
    let table ← environmentTable environment
    let limit? ← environmentLimit? environment
    let options ← limited limit?
    return { options with table := table, checkCalls := checks environment }) := by
  refine bind_congr fun table => bind_congr fun limit? => ?_
  cases limit? with
  | none => rfl
  | some limit =>
    simp only [ofSettings, limited, withErrorLimit, Option.none_or, pure_bind]
    split <;> rfl

theorem environmentTable_congr (same : environment "KALEIDO_PRECEDENCE" = other "KALEIDO_PRECEDENCE") :
    environmentTable environment = environmentTable other := by
  rw [environmentTable, same, environmentTable]

theorem environmentLimit?_congr (same : environment "KALEIDO_MAX_ERRORS" = other "KALEIDO_MAX_ERRORS") :
    environmentLimit? environment = environmentLimit? other := by
  rw [environmentLimit?, same, environmentLimit?]

theorem checks_congr (same : environment "KALEIDO_CHECK_ARITY" = other "KALEIDO_CHECK_ARITY") :
    checks environment = checks other := by
  rw [checks, same, checks]

theorem limited_of_usable (usable : LimitUsable (environment "KALEIDO_MAX_ERRORS")) :
    ∃ limit, ∃ positive : 0 < limit, environmentLimit? environment >>= limited =
      .ok { standard with errorLimit := limit, errorLimit_pos := positive } := by
  rw [environmentLimit?]
  split
  · exact ⟨standard.errorLimit, standard.errorLimit_pos, rfl⟩
  · exact ⟨standard.errorLimit, standard.errorLimit_pos, rfl⟩
  · next text present filled =>
    rcases usable text filled with empty | ⟨limit, value, positive⟩
    · exact absurd empty present
    · refine ⟨limit.toNat, by omega, ?_⟩
      rw [value]
      exact dif_pos positive

/-- A limit that is no integer is refused, unless the operator list is refused before. -/
theorem ofEnvironment_of_illegible {text : String} (given : environment "KALEIDO_MAX_ERRORS" = some text)
    (filled : text ≠ "") (illegible : Text.integer? text = none) : ofEnvironment environment {} = (do
      let _ ← environmentTable environment
      .error (.errorLimitText text)) := by
  have refused : environmentLimit? environment = .error (.errorLimitText text) := by
    rw [environmentLimit?, given]
    split
    · contradiction
    · next empty => exact absurd (Option.some.inj empty) filled
    · next same =>
      obtain rfl := Option.some.inj same
      rw [illegible]
  rw [ofEnvironment_eq, refused]
  rfl

end Options

namespace Invocation

open Options

variable {host : Host} {invocation : Invocation} {environment other : String → Option String} {bytes : List UInt8}

/-- The environment shows in nothing but the options. -/
theorem execute_congr (same : invocation.options environment = invocation.options other) (bytes : List UInt8) :
    invocation.execute host environment bytes = invocation.execute host other bytes := by
  have read (source : String) : invocation.read environment source bytes = invocation.read other source bytes := by
    rw [Invocation.read, same, Invocation.read]
  unfold execute
  split
  · rw [parse, read, parse]
  · rfl
  · rw [format, read, format]
  · rw [same]

/-- A limit on the command line hides every usable one of the environment. -/
theorem options_of_given_limit (given : invocation.errorLimit?.isSome = true)
    (agree : AgreeBut "KALEIDO_MAX_ERRORS" environment other)
    (usable : LimitUsable (environment "KALEIDO_MAX_ERRORS")) (usable' : LimitUsable (other "KALEIDO_MAX_ERRORS")) :
    invocation.options environment = invocation.options other := by
  obtain ⟨limit, positive, limited⟩ := limited_of_usable usable
  obtain ⟨limit', positive', limited'⟩ := limited_of_usable usable'
  obtain ⟨shown, some⟩ := Option.isSome_iff_exists.mp given
  rw [options_eq, options_eq, ofEnvironment_eq, ofEnvironment_eq, environmentTable_congr (agree _ (by decide)),
    checks_congr (agree _ (by decide))]
  simp only [bind_assoc, pure_bind]
  congr 1
  funext table
  rw [← bind_assoc, ← bind_assoc, limited, limited']
  simp [under, some, bind, Except.bind]

theorem options_of_given_check (given : invocation.checkCalls = true)
    (agree : AgreeBut "KALEIDO_CHECK_ARITY" environment other) :
    invocation.options environment = invocation.options other := by
  rw [options_eq, options_eq, ofEnvironment_eq, ofEnvironment_eq, environmentTable_congr (agree _ (by decide)),
    environmentLimit?_congr (agree _ (by decide))]
  simp [under, given]

theorem options_of_illegible {text : String} (given : environment "KALEIDO_MAX_ERRORS" = some text)
    (filled : text ≠ "") (illegible : Text.integer? text = none) :
    ∃ fault, invocation.options environment = .error fault ∧
      ((environmentTable environment).isOk = true → fault = .errorLimitText text) := by
  rw [options_eq, ofEnvironment_of_illegible given filled illegible]
  cases environmentTable environment with
  | error fault => exact ⟨fault, rfl, by simp [Except.isOk, Except.toBool]⟩
  | ok table => exact ⟨.errorLimitText text, rfl, fun _ => rfl⟩

/-- Options that are refused end every command but the one that has no use for them. -/
theorem execute_of_fault {fault : ConfigurationFault} (refused : invocation.options environment = .error fault)
    (reads : ∀ source, invocation.command ≠ .tokens source) (bytes : List UInt8) :
    invocation.execute host environment bytes = (Failure.configuration fault.message).answer host := by
  have failed : invocation.fail host [] (.configuration fault.message) =
      (Failure.configuration fault.message).answer host := by
    simp [fail, logText, linesText, Failure.answer]
  have read (source : String) :
      invocation.read environment source bytes = .error ([], .configuration fault.message) := by
    rw [Invocation.read, refused]
  unfold execute
  split
  · rw [parse, read]
    exact failed
  · next source same => exact absurd same (reads source)
  · rw [format, read]
    exact failed
  · rw [refused]
    exact failed

end Invocation

open Options Invocation

/-- Of the error limits that can be used, that of the environment does not show where the command line gives one, and
whether the environment asks for calls to be checked does not show where the command line asks for it, on whatever host. A limit in
the environment that is no integer is refused all the same. -/
theorem command_line_wins (host : Host) (invocation : Invocation) (environment : String → Option String)
    (bytes : List UInt8) :
    (invocation.errorLimit?.isSome = true → ∀ other, AgreeBut "KALEIDO_MAX_ERRORS" environment other →
      LimitUsable (environment "KALEIDO_MAX_ERRORS") → LimitUsable (other "KALEIDO_MAX_ERRORS") →
        invocation.execute host environment bytes = invocation.execute host other bytes) ∧
    (invocation.checkCalls = true → ∀ other, AgreeBut "KALEIDO_CHECK_ARITY" environment other →
      invocation.execute host environment bytes = invocation.execute host other bytes) ∧
    ∀ text, environment "KALEIDO_MAX_ERRORS" = some text → text ≠ "" → Text.integer? text = none →
      (∀ source, invocation.command ≠ .tokens source) →
        ∃ fault : ConfigurationFault,
          invocation.execute host environment bytes = (Failure.configuration fault.message).answer host ∧
          ((environmentTable environment).isOk = true → fault = .errorLimitText text) := by
  refine ⟨?_, ?_, ?_⟩
  · intro given other agree usable usable'
    exact execute_congr (options_of_given_limit given agree usable usable') bytes
  · intro given other agree
    exact execute_congr (options_of_given_check given agree) bytes
  · intro text given filled illegible reads
    obtain ⟨fault, refused, which⟩ := options_of_illegible given filled illegible
    exact ⟨fault, execute_of_fault refused reads bytes, which⟩

/-- The command line gives a limit and asks for checks, and so do environments. -/
theorem command_line_wins_over_seven :
    let invocation : Invocation := ⟨false, [], true, some 5, by decide, .parse "-" false⟩
    let unset : String → Option String := fun _ => none
    let limit (text : String) : String → Option String := fun name =>
      if name = "KALEIDO_MAX_ERRORS" then some text else none
    let check : String → Option String := fun name => if name = "KALEIDO_CHECK_ARITY" then some "no" else none
    invocation.respond unset [0x29] = invocation.respond (limit "7") [0x29] ∧
      invocation.respond unset [0x29] = invocation.respond check [0x29] ∧
      invocation.respond (limit "many") [0x29] =
        ⟨.usageFault, "", "Configuration error: KALEIDO_MAX_ERRORS must be an integer, got 'many'\n"⟩ := by
  intro invocation unset limit check
  have seven : LimitUsable (limit "7" "KALEIDO_MAX_ERRORS") := by
    rintro _ ⟨⟩
    exact .inr ⟨7, by decide, by decide⟩
  have nothing : LimitUsable (unset "KALEIDO_MAX_ERRORS") := by simp [LimitUsable, unset]
  have onlyLimit : AgreeBut "KALEIDO_MAX_ERRORS" unset (limit "7") := fun name other => by simp [unset, limit, other]
  have onlyCheck : AgreeBut "KALEIDO_CHECK_ARITY" unset check := fun name other => by simp [unset, check, other]
  refine ⟨(command_line_wins .piped invocation unset _).1 rfl _ onlyLimit nothing seven,
    (command_line_wins .piped invocation unset _).2.1 rfl _ onlyCheck, ?_⟩
  obtain ⟨fault, refused, which⟩ :=
    (command_line_wins .piped invocation (limit "many") [0x29]).2.2 "many" rfl (by decide) (by decide) (by simp [invocation])
  obtain rfl := which (by rfl)
  exact refused.trans (by decide +kernel)

/-- A limit that is no integer makes a difference, although the command line gives another. -/
theorem illegible_limit_matters :
    let invocation : Invocation := ⟨false, [], false, some 5, by decide, .parse "-" false⟩
    let unset : String → Option String := fun _ => none
    let many : String → Option String := fun name => if name = "KALEIDO_MAX_ERRORS" then some "many" else none
    AgreeBut "KALEIDO_MAX_ERRORS" unset many ∧
      invocation.respond unset [0x78] = ⟨.success, "top-level expression\n", ""⟩ ∧
      invocation.respond many [0x78] =
        ⟨.usageFault, "", "Configuration error: KALEIDO_MAX_ERRORS must be an integer, got 'many'\n"⟩ := by
  intro invocation unset many
  have only : AgreeBut "KALEIDO_MAX_ERRORS" unset many := fun name other => by simp [unset, many, other]
  exact ⟨only, by decide +kernel, by decide +kernel⟩

end Kaleidoscope
