import Kaleidoscope.Command.Invocation
import Kaleidoscope.Proofs.Operator.Listing

/-! Ways of giving operator lists. Lists given one by one, joined by commas or in the environment are laid over the
standard table in the same way, because reading a joined list gives what reading the lists one by one gives. -/
namespace Kaleidoscope

namespace OperatorSpec

variable {table base : OperatorTable} {list : String} {lists more : List String}

/-- The entries of all lists one after another, or the first item at fault. -/
def mentions (lists : List String) : Except ConfigurationFault (List (String × Int)) :=
  (lists.flatMap items).mapM item

def overlay (table : OperatorTable) (lists : List String) : Except ConfigurationFault OperatorTable := do
  let entries ← mentions lists
  table.extend (toScalars entries)

theorem items_append_comma (front back : String) : items (front ++ "," ++ back) = items front ++ items back := by
  have fields : fields ',' (front ++ "," ++ back).toList = fields ',' front.toList ++ fields ',' back.toList := by
    simp [fields_eq_splitOn, List.splitOn_append_cons_self]
  rw [items, fields, List.map_append, List.filter_append]
  rfl

theorem items_intercalate (lists : List String) : items (",".intercalate lists) = lists.flatMap items := by
  induction lists with
  | nil => rfl
  | cons list lists ih =>
    cases lists with
    | nil => simp
    | cons next lists =>
      rw [String.intercalate_cons_cons, items_append_comma, ih]
      rfl

theorem mentions_joined (lists more : List String) :
    mentions (",".intercalate lists :: more) = mentions (lists ++ more) := by
  simp [mentions, items_intercalate]

theorem overlay_joined (table : OperatorTable) (lists more : List String) :
    overlay table (",".intercalate lists :: more) = overlay table (lists ++ more) := by
  rw [overlay, mentions_joined, overlay]

theorem mentions_append (lists more : List String) : mentions (lists ++ more) = (do
    let front ← mentions lists
    let back ← mentions more
    return front ++ back) := by
  simp [mentions, List.mapM_append]

theorem read_eq (list : String) : read list = (mentions [list]).map (Association.insertAll []) := by
  simp [read, mentions]
  rfl

theorem overlay_nil (table : OperatorTable) : overlay table [] = .ok table := table.extend_nil

theorem overlay_none (table : OperatorTable) : overlay table (none : Option String).toList = .ok table :=
  overlay_nil table

theorem overlay_append (made : overlay base lists = .ok table) (more : List String) :
    overlay table more = overlay base (lists ++ more) := by
  obtain ⟨entries, front, made⟩ := exists_of_bind_eq_ok made
  rw [overlay, overlay, mentions_append, front]
  cases mentions more with
  | error fault => rfl
  | ok back =>
    change table.extend (toScalars back) = base.extend (toScalars (entries ++ back))
    rw [toScalars_append, table.extend_extend made]

/-- Putting the entries of each list together first makes no difference. -/
theorem mapM_read (lists : List String) :
    (lists.mapM read).map (fun all => Association.insertAll [] all.flatten) =
      (mentions lists).map (Association.insertAll []) := by
  induction lists with
  | nil => rfl
  | cons list lists ih =>
    have split : mentions (list :: lists) = _ := mentions_append [list] lists
    rw [List.mapM_cons, read_eq, split]
    cases mentions [list] with
    | error fault => rfl
    | ok front =>
      cases all : lists.mapM read <;> cases others : mentions lists <;> rw [all, others] at ih
      case error.error fault fault' => exact congrArg _ (Except.error.inj ih)
      case error.ok | ok.error => cases ih
      -- The entries of the first list are put together once by themselves and once more with the others.
      case ok.ok rest back =>
        have same : Association.insertAll [] rest.flatten = Association.insertAll [] back := Except.ok.inj ih
        change Except.ok (Association.insertAll [] (Association.insertAll [] front ++ rest.flatten)) =
          Except.ok (Association.insertAll [] (front ++ back))
        rw [Association.insertAll_append, Association.insertAll_append, Association.insertAll_collected,
          Association.insertAll_congr same]

/-- Lists read one by one are laid over a table as they are all at once. -/
theorem extend_lists (table : OperatorTable) (lists : List String) :
    (do
      let all ← lists.mapM read
      table.extend (toScalars all.flatten)) = overlay table lists := by
  have collected := mapM_read lists
  rw [overlay]
  cases all : lists.mapM read <;> cases mentioned : mentions lists <;> rw [all, mentioned] at collected
  case error.error fault fault' => exact congrArg _ (Except.error.inj collected)
  case error.ok | ok.error => cases collected
  case ok.ok entries given =>
    have same : Association.insertAll [] entries.flatten = Association.insertAll [] given := Except.ok.inj collected
    refine table.extend_congr ?_
    rw [← toScalars_nil, ← toScalars_insertAll, ← toScalars_insertAll, same]

theorem extend_list (table : OperatorTable) (list : String) :
    (do
      let entries ← read list
      table.extend (toScalars entries)) = overlay table [list] := by
  rw [← extend_lists]
  simp

/-- What a table holds over which lists were laid: the operators in order of first mention behind those of the table,
each with the last precedence given to it. -/
theorem table_of_overlay (laid : overlay base lists = .ok table) : ∃ entries, mentions lists = .ok entries ∧
    Association.keys (ofTable table) = (Association.keys (ofTable base) ++ Association.keys entries).eraseDups ∧
    ∀ op : Char, table.get? op = (Association.find? op.toString entries.reverse).or (base.get? op) := by
  obtain ⟨entries, mentioned, made⟩ := exists_of_bind_eq_ok laid
  have held : ofTable table = Association.insertAll (ofTable base) entries := ofTable_of_extend made
  refine ⟨entries, mentioned, ?_, fun op => ?_⟩
  · rw [held, Association.keys_insertAll (nodup_keys_ofTable base)]
  · rw [← find?_ofTable, held, Association.find?_insertAll, find?_ofTable]

end OperatorSpec

namespace Options

open OperatorSpec

variable {environment : String → Option String}

def withList (environment : String → Option String) (list? : Option String) : String → Option String :=
  fun name => if name = "KALEIDO_PRECEDENCE" then list? else environment name

theorem environmentTable_withList (environment : String → Option String) (list? : Option String) :
    environmentTable (withList environment list?) = overlay .standard list?.toList := by
  have value : withList environment list? "KALEIDO_PRECEDENCE" = list? := if_pos rfl
  rw [environmentTable, value]
  split
  · exact (overlay_nil _).symm
  · exact (overlay_nil _).symm
  · exact extend_list _ _

theorem ofSettings_withTable {settings : Settings} (given : settings.table? = none) (options : Options)
    (table : OperatorTable) : ofSettings { options with table := table } settings = (do
      let options ← ofSettings options settings
      return { options with table := table }) := by
  rw [ofSettings, ofSettings, given]
  cases settings.errorLimit? with
  | none => rfl
  | some limit =>
    simp only [withErrorLimit, pure_bind]
    split <;> rfl

theorem ofEnvironment_withList (environment : String → Option String) (list? : Option String) :
    ofEnvironment (withList environment list?) {} = (do
      let table ← overlay .standard list?.toList
      let options ← ofEnvironment (withList environment none) {}
      return { options with table := table }) := by
  have calls :
      withList environment list? "KALEIDO_CHECK_ARITY" = withList environment none "KALEIDO_CHECK_ARITY" := rfl
  have limit : environmentLimit? (withList environment list?) = environmentLimit? (withList environment none) := rfl
  rw [ofEnvironment, ofEnvironment, environmentTable_withList, environmentTable_withList, calls, limit]
  rw [overlay_none]
  cases overlay .standard list?.toList with
  | error fault => rfl
  | ok table =>
    cases environmentLimit? (withList environment none) with
    | error fault => rfl
    | ok limit? =>
      let settings : Settings :=
        { checkCalls? := (withList environment none "KALEIDO_CHECK_ARITY").map isAffirmative
          errorLimit? := limit? }
      exact @ofSettings_withTable settings rfl standard table

end Options

namespace Invocation

open OperatorSpec

variable {invocation : Invocation} {environment : String → Option String} {table : OperatorTable} {lists : List String}
  {list : String}

theorem limit_pos (invocation : Invocation) (options : Options) :
    0 < invocation.errorLimit?.getD options.errorLimit := by
  cases h : invocation.errorLimit? with
  | none => exact options.errorLimit_pos
  | some limit => exact invocation.errorLimit_pos limit h

/-- The options of an environment with a table and with what the command line says in the place of their own. -/
def under (invocation : Invocation) (options : Options) (table : OperatorTable) : Options :=
  { options with
    table := table
    checkCalls := invocation.checkCalls || options.checkCalls
    errorLimit := invocation.errorLimit?.getD options.errorLimit
    errorLimit_pos := limit_pos invocation options }

theorem options_eq (invocation : Invocation) (environment : String → Option String) :
    invocation.options environment = (do
      let options ← Options.ofEnvironment environment {}
      let table ← overlay options.table invocation.operators
      return invocation.under options table) := by
  rw [options]
  congr 1
  funext options
  cases some : invocation.operators with
  | nil => rw [overlay_nil]; rfl
  | cons list lists =>
    rw [← extend_lists]
    simp
    rfl

def withOperators (invocation : Invocation) (lists : List String) : Invocation :=
  { invocation with operators := lists }

theorem options_withList (invocation : Invocation) (environment : String → Option String) (list? : Option String) :
    invocation.options (Options.withList environment list?) = (do
      let base ← overlay .standard list?.toList
      let options ← Options.ofEnvironment (Options.withList environment none) {}
      let table ← overlay base invocation.operators
      return invocation.under options table) := by
  rw [options_eq, Options.ofEnvironment_withList]
  simp only [bind_assoc, pure_bind]
  rfl

theorem options_of_overlay {base : OperatorTable} {list? : Option String}
    (laid : overlay .standard list?.toList = .ok base) :
    invocation.options (Options.withList environment list?) = (do
      let options ← Options.ofEnvironment (Options.withList environment none) {}
      let table ← overlay base invocation.operators
      return invocation.under options table) := by
  rw [options_withList, laid]
  rfl

theorem options_joined (invocation : Invocation) (lists : List String) (environment : String → Option String) :
    (invocation.withOperators [",".intercalate lists]).options environment =
      (invocation.withOperators lists).options environment := by
  rw [options_eq, options_eq]
  congr 1
  funext options
  have same := overlay_joined options.table lists []
  rw [List.append_nil] at same
  exact congrArg (· >>= _) same

/-- A list in the environment that is in order by itself counts as if it were given first on the command line. -/
theorem options_environment_first (valid : overlay .standard [list] = .ok table) (lists : List String)
    (environment : String → Option String) :
    (invocation.withOperators lists).options (Options.withList environment (some list)) =
      (invocation.withOperators (list :: lists)).options (Options.withList environment none) := by
  have later : overlay table (invocation.withOperators lists).operators =
      overlay .standard (invocation.withOperators (list :: lists)).operators := overlay_append valid lists
  have given : overlay .standard (some list).toList = .ok table := valid
  rw [options_of_overlay given, options_of_overlay (overlay_none _), later]
  rfl

/-- Without operator lists on the command line, one in the environment counts as if it were given there. Only if
something else is wrong too, another fault may be noticed first. -/
theorem options_environment_only (invocation : Invocation) (environment : String → Option String) (list : String)
    (sound : ((invocation.withOperators []).options (Options.withList environment none)).isOk = true ∨
      (overlay .standard [list]).isOk = true) :
    (invocation.withOperators []).options (Options.withList environment (some list)) =
      (invocation.withOperators [list]).options (Options.withList environment none) := by
  cases laid : overlay .standard [list] with
  | ok table => exact options_environment_first laid [] environment
  | error fault =>
    have given : overlay .standard (some list).toList = .error fault := laid
    have after : overlay .standard (invocation.withOperators [list]).operators = .error fault := laid
    have accepted := sound.resolve_right (by simp [laid, Except.isOk, Except.toBool])
    rw [options_of_overlay (overlay_none _)] at accepted
    rw [options_withList, given, options_of_overlay (overlay_none _), after]
    cases rest : Options.ofEnvironment (Options.withList environment none) {} with
    | error fault => simp [rest, bind, Except.bind, Except.isOk, Except.toBool] at accepted
    | ok options => rfl

theorem table_of_options {options : Options}
    (accepted : invocation.options (Options.withList environment none) = .ok options) :
    ∃ entries, mentions invocation.operators = .ok entries ∧
      Association.keys (ofTable options.table) =
        (Association.keys (ofTable .standard) ++ Association.keys entries).eraseDups ∧
      ∀ op : Char, options.table.get? op =
        (Association.find? op.toString entries.reverse).or (OperatorTable.standard.get? op) := by
  rw [options_of_overlay (overlay_none _)] at accepted
  obtain ⟨rest, -, accepted⟩ := exists_of_bind_eq_ok accepted
  obtain ⟨table, laid, made⟩ := exists_of_bind_eq_ok accepted
  have held : options.table = table := congrArg Options.table (Except.ok.inj made).symm
  rw [held]
  exact table_of_overlay laid

end Invocation

/-- Operator lists given one by one, joined by commas or in the environment come to the same: the same options, or the
same fault, as long as the rest of the environment is not at fault as well. A list in the environment that is in order
by itself may also stand in front of those on the command line. Later entries win, and operators keep the place of
their first mention. -/
theorem operator_lists_agree (invocation : Invocation) (environment : String → Option String) (lists : List String) :
    let joined := ",".intercalate lists
    let bare := Options.withList environment none
    (invocation.withOperators lists).options environment = (invocation.withOperators [joined]).options environment ∧
      (((invocation.withOperators []).options bare).isOk = true ∨ (OperatorSpec.overlay .standard lists).isOk = true →
        (invocation.withOperators []).options (Options.withList environment (some joined)) =
          (invocation.withOperators [joined]).options bare) ∧
      (∀ list, (Options.environmentTable (Options.withList environment (some list))).isOk = true →
        (invocation.withOperators lists).options (Options.withList environment (some list)) =
          (invocation.withOperators [",".intercalate (list :: lists)]).options bare) ∧
      ∀ options, (invocation.withOperators lists).options bare = .ok options →
        ∃ entries, OperatorSpec.mentions lists = .ok entries ∧
          Association.keys (OperatorSpec.ofTable options.table) =
            (Association.keys (OperatorSpec.ofTable .standard) ++ Association.keys entries).eraseDups ∧
          ∀ op : Char, options.table.get? op =
            (Association.find? op.toString entries.reverse).or (OperatorTable.standard.get? op) := by
  intro joined bare
  refine ⟨(invocation.options_joined lists environment).symm, ?_, ?_, fun options => Invocation.table_of_options⟩
  · intro sound
    have same := OperatorSpec.overlay_joined .standard lists []
    rw [List.append_nil] at same
    rw [← same] at sound
    exact invocation.options_environment_only environment joined sound
  · intro list valid
    obtain ⟨table, laid⟩ : ∃ table, OperatorSpec.overlay .standard [list] = .ok table := by
      rw [Options.environmentTable_withList] at valid
      cases laid : OperatorSpec.overlay .standard [list] with
      | ok table => exact ⟨table, rfl⟩
      | error fault =>
        rw [Option.toList_some, laid] at valid
        cases valid
    rw [Invocation.options_joined, Invocation.options_environment_first laid]

/-- Two lists that change an operator and add one, and a third in the environment. -/
theorem operator_lists_agree_with_environment :
    let invocation : Invocation := ⟨false, [], false, none, by simp, .converse⟩
    let bare := Options.withList (fun _ => none) none
    ((invocation.withOperators []).options bare).isOk = true ∧
      (Options.environmentTable (Options.withList (fun _ => none) (some "|:5"))).isOk = true ∧
      (invocation.withOperators []).options (Options.withList (fun _ => none) (some "/:40,+:5")) =
        (invocation.withOperators ["/:40,+:5"]).options bare ∧
      (invocation.withOperators ["/:40", "+:5"]).options (Options.withList (fun _ => none) (some "|:5")) =
        (invocation.withOperators ["|:5,/:40,+:5"]).options bare := by
  intro invocation bare
  have accepted : ((invocation.withOperators []).options bare).isOk = true := by rfl
  have valid : (Options.environmentTable (Options.withList (fun _ => none) (some "|:5"))).isOk = true := by rfl
  obtain ⟨_, only, first, _⟩ := operator_lists_agree invocation (fun _ => none) ["/:40", "+:5"]
  exact ⟨accepted, valid, only (.inl accepted), first "|:5" valid⟩

end Kaleidoscope
