import FlvMeta.Check.Report

/-!
# The command line

`parse_command_line`, from the options that `getopt_long` finds on. The manual calls `-x`, `-j`,
`-r` and `-y` equivalent to `--dump-format` with the name of the format; the branch of the latter
rejects `xml`, so exchanging them changes nothing exactly if no `-x` is exchanged that the parser
comes to (`exchanged_iff`).
-/

namespace FlvMeta

variable {N : Type}

/-! ## Options -/

inductive Command
  | default | dump | fullDump | check | update | version | help
  deriving DecidableEq

/-- All of `flvmeta_opts`. A file that is not set is NULL. -/
structure CommandLineOpts (N : Type) extends FlvmetaOpts N where
  command : Command
  inputFile : Option Bytes
  outputFile : Option Bytes
  dumpMetadata : Bool
  checkLevel : CheckLevel
  quiet : Bool
  checkReportFormat : ReportFormat
  dumpFormat : ReportFormat
  verbose : Bool
  metadataEvent : Option Bytes

/-- The default options of `main`. -/
def defaultCommandLineOpts : CommandLineOpts N where
  toFlvmetaOpts := defaultOptions
  command := .default
  inputFile := none
  outputFile := none
  dumpMetadata := false
  checkLevel := .warning
  quiet := false
  checkReportFormat := .raw
  dumpFormat := .xml
  verbose := false
  metadataEvent := none

/-- What `getopt_long` returns, with `optarg`; a long option returns the same as its short one. -/
inductive GetoptResult
  | dump | fullDump | check | update
  | level (optarg : Bytes)
  | quiet
  | dumpFormat (optarg : Bytes)
  | json | raw | xml | yaml
  | event (optarg : Bytes)
  | printMetadata
  | add (optarg : Bytes)
  | noLastsecond | preserve | fix | ignore | resetTimestamps | allKeyframes
  | verbose | version | help
  /-- An unknown option, or one without its argument. -/
  | unknown
  deriving DecidableEq

/-- How a turn of the loop ends, or the loop: it goes on (to the files after the last option), or
the function returns. -/
inductive Turn (α : Type)
  | next (a : α)
  | returnOk (a : α)
  | failure

/-! ## Parsing -/

/-- `strcmp(optarg, literal) == 0`. -/
def argIs (optarg : Bytes) (literal : String) : Bool := cString optarg == ascii literal

/-- The four branches of the commands. -/
def parseCommand (command : Command) (options : CommandLineOpts N) : Turn (CommandLineOpts N) :=
  if options.command ≠ .default then .failure else .next { options with command := command }

def parseLevel (optarg : Bytes) (options : CommandLineOpts N) : Turn (CommandLineOpts N) :=
  if argIs optarg "info" then .next { options with checkLevel := .info }
  else if argIs optarg "warning" then .next { options with checkLevel := .warning }
  else if argIs optarg "error" then .next { options with checkLevel := .error }
  else if argIs optarg "fatal" then .next { options with checkLevel := .fatal }
  else .failure

def parseDumpFormat (optarg : Bytes) (options : CommandLineOpts N) : Turn (CommandLineOpts N) :=
  let options := if argIs optarg "xml" then { options with dumpFormat := .xml } else options
  -- not an else: the rest of the chain has no case for xml
  if argIs optarg "raw" then .next { options with dumpFormat := .raw }
  else if argIs optarg "json" then .next { options with dumpFormat := .json }
  else if argIs optarg "yaml" then .next { options with dumpFormat := .yaml }
  else .failure

/-- The name and the value of `--add` are around the first equals sign. -/
def parseAdd (optarg : Bytes) (options : CommandLineOpts N) : Turn (CommandLineOpts N) :=
  let str := cString optarg
  if str.contains 0x3d then
    let metadata := if options.metadata.isNull then .associativeArray [] else options.metadata
    .next { options with
      metadata := metadata.add (str.takeWhile (· != 0x3d))
        (amfStr ((str.dropWhile (· != 0x3d)).drop 1)) }
  else .failure

/-- The `switch` of the loop. -/
def parseOption : GetoptResult → CommandLineOpts N → Turn (CommandLineOpts N)
  | .dump, options => parseCommand .dump options
  | .fullDump, options => parseCommand .fullDump options
  | .check, options => parseCommand .check options
  | .update, options => parseCommand .update options
  | .level optarg, options => parseLevel optarg options
  | .quiet, options => .next { options with quiet := true }
  | .dumpFormat optarg, options => parseDumpFormat optarg options
  | .json, options => .next { options with dumpFormat := .json, checkReportFormat := .json }
  | .raw, options => .next { options with dumpFormat := .raw }
  | .xml, options => .next { options with dumpFormat := .xml, checkReportFormat := .xml }
  | .yaml, options => .next { options with dumpFormat := .yaml }
  | .event optarg, options => .next { options with metadataEvent := some optarg }
  | .printMetadata, options => .next { options with dumpMetadata := true }
  | .add optarg, options => parseAdd optarg options
  | .noLastsecond, options => .next { options with insertOnlastsecond := false }
  | .preserve, options => .next { options with preserveMetadata := true }
  | .fix, options => .next { options with errorHandling := .fixErrors }
  | .ignore, options => .next { options with errorHandling := .ignoreErrors }
  | .resetTimestamps, options => .next { options with resetTimestamps := true }
  | .allKeyframes, options => .next { options with allKeyframes := true }
  | .verbose, options => .next { options with verbose := true }
  | .version, options => .returnOk { options with command := .version }
  | .help, options => .returnOk { options with command := .help }
  | .unknown, _ => .failure

def parseOptions : List GetoptResult → CommandLineOpts N → Turn (CommandLineOpts N)
  | [], options => .next options
  | result :: results, options =>
    match parseOption result options with
    | .next options => parseOptions results options
    | .returnOk options => .returnOk options
    | .failure => .failure

/-- The files and the default command, from the arguments that are no options. -/
def parseFiles (arguments : List Bytes) (options : CommandLineOpts N) :
    Option (CommandLineOpts N) :=
  match arguments with
  | [] => none
  | inputFile :: rest =>
    let command :=
      if options.command ≠ .default then options.command
      else if rest.head?.isSome then .update else .dump
    some { options with
      command := command
      inputFile := some inputFile
      outputFile := some (rest.headD inputFile) }

/-- `parse_command_line`, `none` for `EXIT_FAILURE`. -/
def parseCommandLine (results : List GetoptResult) (arguments : List Bytes)
    (options : CommandLineOpts N) : Option (CommandLineOpts N) :=
  match parseOptions results options with
  | .next options => parseFiles arguments options
  | .returnOk options => some options
  | .failure => none

/-- The format that the chain of tests of `--dump-format` finds. -/
def chainFormat (optarg : Bytes) : Option ReportFormat :=
  if argIs optarg "raw" then some .raw
  else if argIs optarg "json" then some .json
  else if argIs optarg "yaml" then some .yaml
  else none

/-- The assignment for xml comes to nothing: it is overwritten, or the option is rejected. -/
theorem parseDumpFormat_eq (optarg : Bytes) (options : CommandLineOpts N) :
    parseDumpFormat optarg options =
      match chainFormat optarg with
      | some format => .next { options with dumpFormat := format }
      | none => .failure := by
  unfold parseDumpFormat chainFormat
  split
  · split
    · rfl
    split
    · rfl
    split
    · rfl
    · rfl
  · split
    · rfl
    split
    · rfl
    split
    · rfl
    · rfl

/-! ## The command line as it is written -/

namespace GetoptResult

/-- `--version` and `--help` end the parsing. -/
def returns : GetoptResult → Bool
  | version | help => true
  | _ => false

def isCommand : GetoptResult → Bool
  | dump | fullDump | check | update => true
  | _ => false

/-- The format that an option asks for. -/
def format : GetoptResult → Option ReportFormat
  | json => some .json
  | raw => some .raw
  | xml => some .xml
  | yaml => some .yaml
  | dumpFormat optarg => (chainFormat optarg).or (if argIs optarg "xml" then some .xml else none)
  | _ => none

/-- An option that is not rejected by itself. -/
def Fine : GetoptResult → Prop
  | level optarg => argIs optarg "info" ∨ argIs optarg "warning" ∨ argIs optarg "error" ∨
    argIs optarg "fatal"
  | dumpFormat optarg => (chainFormat optarg).isSome
  | add optarg => (cString optarg).contains 0x3d
  | unknown => False
  | _ => True

end GetoptResult

/-- The options that the parser comes to. -/
def seenOptions (results : List GetoptResult) : List GetoptResult :=
  results.takeWhile fun result => !result.returns

/-- A command line without an invalid option, a second command, or a missing file. -/
structure Acceptable (results : List GetoptResult) (arguments : List Bytes) : Prop where
  fine : ∀ result ∈ seenOptions results, result.Fine
  oneCommand : ((seenOptions results).filter GetoptResult.isCommand).length ≤ 1
  input : results.any GetoptResult.returns ∨ arguments ≠ []

/-- A short option and the long one that the manual calls equivalent to it. -/
inductive Equivalent : GetoptResult → GetoptResult → Prop
  | json : Equivalent .json (.dumpFormat (ascii "json"))
  | raw : Equivalent .raw (.dumpFormat (ascii "raw"))
  | xml : Equivalent .xml (.dumpFormat (ascii "xml"))
  | yaml : Equivalent .yaml (.dumpFormat (ascii "yaml"))

/-- Any of the short options are replaced. -/
def Exchanged : List GetoptResult → List GetoptResult → Prop :=
  List.Forall₂ fun result result' => result' = result ∨ Equivalent result result'

/-- A `-x` that the parser comes to is among them. -/
def XmlExchanged : List GetoptResult → List GetoptResult → Prop
  | result :: results, result' :: results' =>
    (result = .xml ∧ result' ≠ .xml) ∨ (¬ result.returns ∧ XmlExchanged results results')
  | _, _ => False

/-- The command, the format and the files. -/
structure CommandOutcome where
  command : Command
  dumpFormat : ReportFormat
  inputFile : Option Bytes
  outputFile : Option Bytes

def CommandLineOpts.outcome (options : CommandLineOpts N) : CommandOutcome :=
  ⟨options.command, options.dumpFormat, options.inputFile, options.outputFile⟩

/-! ## Turns -/

/-- Two turns that end alike, with related options. -/
inductive Turn.Rel {α β : Type} (r : α → β → Prop) : Turn α → Turn β → Prop
  | next {a : α} {b : β} (h : r a b) : Turn.Rel r (.next a) (.next b)
  | returnOk {a : α} {b : β} (h : r a b) : Turn.Rel r (.returnOk a) (.returnOk b)
  | failure : Turn.Rel r .failure .failure

def SameOutcome (options options' : CommandLineOpts N) : Prop := options.outcome = options'.outcome

theorem rel_parseLevel (optarg : Bytes) {options options' : CommandLineOpts N}
    (h : SameOutcome options options') :
    Turn.Rel SameOutcome (parseLevel optarg options) (parseLevel optarg options') := by
  unfold parseLevel
  split
  · exact .next h
  split
  · exact .next h
  split
  · exact .next h
  split
  · exact .next h
  · exact .failure

theorem rel_parseDumpFormat (optarg : Bytes) {options options' : CommandLineOpts N}
    (h : SameOutcome options options') :
    Turn.Rel SameOutcome (parseDumpFormat optarg options) (parseDumpFormat optarg options') := by
  obtain ⟨hcommand, -, hinput, houtput⟩ := CommandOutcome.mk.inj h
  rw [parseDumpFormat_eq, parseDumpFormat_eq]
  cases chainFormat optarg with
  | none => exact .failure
  | some format =>
    exact .next (by simp [SameOutcome, CommandLineOpts.outcome, hcommand, hinput, houtput])

/-- An option makes the same of options with the same outcome. -/
theorem rel_parseOption (result : GetoptResult) {options options' : CommandLineOpts N}
    (h : SameOutcome options options') :
    Turn.Rel SameOutcome (parseOption result options) (parseOption result options') := by
  obtain ⟨hcommand, hformat, hinput, houtput⟩ := CommandOutcome.mk.inj h
  cases result with
  | dump | fullDump | check | update =>
    simp only [parseOption, parseCommand, hcommand]
    split
    · exact .failure
    · exact .next (by simp [SameOutcome, CommandLineOpts.outcome, hformat, hinput, houtput])
  | level optarg => exact rel_parseLevel optarg h
  | dumpFormat optarg => exact rel_parseDumpFormat optarg h
  | add optarg =>
    simp only [parseOption, parseAdd]
    split
    · exact .next h
    · exact .failure
  | unknown => exact .failure
  | version | help =>
    exact .returnOk (by simp [SameOutcome, CommandLineOpts.outcome, hformat, hinput, houtput])
  | json | raw | xml | yaml =>
    exact .next (by simp [SameOutcome, CommandLineOpts.outcome, hcommand, hinput, houtput])
  | _ => exact .next h

theorem chainFormat_json : chainFormat (ascii "json") = some .json := by decide

theorem chainFormat_raw : chainFormat (ascii "raw") = some .raw := by decide

theorem chainFormat_yaml : chainFormat (ascii "yaml") = some .yaml := by decide

theorem chainFormat_xml : chainFormat (ascii "xml") = none := by decide

/-- Equivalent options do the same, but for xml. -/
theorem rel_equivalent {result result' : GetoptResult} (hresult : Equivalent result result')
    (hxml : result ≠ .xml) {options options' : CommandLineOpts N}
    (h : SameOutcome options options') :
    Turn.Rel SameOutcome (parseOption result options) (parseOption result' options') := by
  obtain ⟨hcommand, -, hinput, houtput⟩ := CommandOutcome.mk.inj h
  cases hresult with
  | json =>
    simp only [parseOption, parseDumpFormat_eq, chainFormat_json]
    exact .next (by simp [SameOutcome, CommandLineOpts.outcome, hcommand, hinput, houtput])
  | raw =>
    simp only [parseOption, parseDumpFormat_eq, chainFormat_raw]
    exact .next (by simp [SameOutcome, CommandLineOpts.outcome, hcommand, hinput, houtput])
  | xml => exact absurd rfl hxml
  | yaml =>
    simp only [parseOption, parseDumpFormat_eq, chainFormat_yaml]
    exact .next (by simp [SameOutcome, CommandLineOpts.outcome, hcommand, hinput, houtput])

theorem parseOption_of_returns {result : GetoptResult} (h : result.returns)
    (options : CommandLineOpts N) :
    ∃ options', parseOption result options = .returnOk options' ∧
      options'.dumpFormat = options.dumpFormat := by
  cases result with
  | version | help => exact ⟨_, rfl, rfl⟩
  | _ => cases h

/-- Without an exchanged xml the loops end alike. -/
theorem rel_parseOptions {results results' : List GetoptResult}
    (hresults : Exchanged results results')
    (hxml : ¬ XmlExchanged results results') {options options' : CommandLineOpts N}
    (h : SameOutcome options options') :
    Turn.Rel SameOutcome (parseOptions results options) (parseOptions results' options') := by
  induction hresults generalizing options options' with
  | nil => exact .next h
  | @cons result result' results results' hfirst _ ih =>
    rw [XmlExchanged, not_or, not_and_or, not_and] at hxml
    have hturn : Turn.Rel SameOutcome (parseOption result options)
        (parseOption result' options') := by
      rcases hfirst with rfl | hequivalent
      · exact rel_parseOption _ h
      · refine rel_equivalent hequivalent (fun hx => ?_) h
        subst hx
        cases hequivalent
        exact absurd hxml.1 (by decide)
    rw [parseOptions, parseOptions]
    by_cases hreturns : result.returns
    · obtain ⟨ended, hended, -⟩ := parseOption_of_returns hreturns options
      rw [hended] at hturn ⊢
      cases hturn' : parseOption result' options' with
      | next options₂ => rw [hturn'] at hturn; cases hturn
      | returnOk options₂ => rw [hturn'] at hturn; exact hturn
      | failure => rw [hturn'] at hturn; cases hturn
    · generalize parseOption result options = turn at hturn
      generalize parseOption result' options' = turn' at hturn
      cases hturn with
      | next hsame => exact ih (hxml.2 hreturns) hsame
      | returnOk hsame => exact .returnOk hsame
      | failure => exact .failure

/-! ## The loop -/

/-- The commands so far. -/
def CommandLineOpts.commands (options : CommandLineOpts N) : ℕ :=
  if options.command = .default then 0 else 1

theorem CommandLineOpts.commands_le_one (options : CommandLineOpts N) : options.commands ≤ 1 := by
  unfold commands
  split
  · decide
  · decide

theorem CommandLineOpts.commands_eq_zero {options : CommandLineOpts N}
    (h : options.commands + 1 ≤ 1) : options.command = .default := by
  by_contra hne
  rw [commands, if_neg hne] at h
  exact absurd h (by decide)

theorem parseCommand_fine {command : Command} (hcommand : command ≠ .default)
    {options : CommandLineOpts N} (hnone : options.command = .default) :
    ∃ options', parseCommand command options = .next options' ∧
      options'.commands = options.commands + 1 ∧ options'.dumpFormat = options.dumpFormat := by
  refine ⟨{ options with command := command }, ?_, ?_, rfl⟩
  · rw [parseCommand, if_neg (not_not_intro hnone)]
  · rw [CommandLineOpts.commands, CommandLineOpts.commands, if_neg hcommand, if_pos hnone]

/-- A fine option is not rejected where no second command comes; it sets the format it asks for. -/
theorem parseOption_fine {result : GetoptResult} (hreturns : result.returns = false)
    (hfine : result.Fine) {options : CommandLineOpts N}
    (hone : options.commands + (if result.isCommand then 1 else 0) ≤ 1) :
    ∃ options', parseOption result options = .next options' ∧
      options'.commands = options.commands + (if result.isCommand then 1 else 0) ∧
      options'.dumpFormat = result.format.getD options.dumpFormat := by
  cases result with
  | dump | fullDump | check | update =>
    exact parseCommand_fine (by decide) (CommandLineOpts.commands_eq_zero hone)
  | level optarg =>
    have hnext : ∃ level, parseLevel optarg options =
        .next { options with checkLevel := level } := by
      unfold parseLevel
      split
      · exact ⟨_, rfl⟩
      split
      · exact ⟨_, rfl⟩
      split
      · exact ⟨_, rfl⟩
      split
      · exact ⟨_, rfl⟩
      · simp_all [GetoptResult.Fine]
    obtain ⟨level, hnext⟩ := hnext
    exact ⟨_, hnext, rfl, rfl⟩
  | dumpFormat optarg =>
    obtain ⟨format, hformat⟩ := Option.isSome_iff_exists.mp hfine
    exact ⟨{ options with dumpFormat := format }, by rw [parseOption, parseDumpFormat_eq, hformat],
      rfl, by simp [GetoptResult.format, hformat]⟩
  | add optarg =>
    have hnext : ∃ metadata, parseAdd optarg options =
        .next { options with metadata := metadata } := ⟨_, if_pos hfine⟩
    obtain ⟨metadata, hnext⟩ := hnext
    exact ⟨_, hnext, rfl, rfl⟩
  | version | help => cases hreturns
  | unknown => exact hfine.elim
  | _ => exact ⟨_, rfl, rfl, rfl⟩

/-- Any other option is rejected. -/
theorem parseOption_not_fine {result : GetoptResult} (hreturns : result.returns = false)
    {options : CommandLineOpts N}
    (h : ¬ (result.Fine ∧ options.commands + (if result.isCommand then 1 else 0) ≤ 1)) :
    parseOption result options = .failure := by
  cases result with
  | dump | fullDump | check | update =>
    have hcommand : options.command ≠ .default := by
      intro heq
      simp [GetoptResult.Fine, CommandLineOpts.commands, heq, GetoptResult.isCommand] at h
    simp [parseOption, parseCommand, hcommand]
  | level optarg =>
    have hlevel : ¬ GetoptResult.Fine (.level optarg) := by
      intro hfine
      exact h ⟨hfine, options.commands_le_one⟩
    simp only [GetoptResult.Fine, not_or] at hlevel
    simp [parseOption, parseLevel, hlevel]
  | dumpFormat optarg =>
    have hformat : chainFormat optarg = none := by
      rw [← Option.not_isSome_iff_eq_none]
      intro hfine
      exact h ⟨hfine, options.commands_le_one⟩
    rw [parseOption, parseDumpFormat_eq, hformat]
  | add optarg =>
    have hequals : ¬ (cString optarg).contains 0x3d = true := by
      intro hfine
      exact h ⟨hfine, options.commands_le_one⟩
    rw [parseOption, parseAdd, if_neg hequals]
  | unknown => rfl
  | version | help => cases hreturns
  | _ => exact absurd ⟨trivial, options.commands_le_one⟩ h

theorem seenOptions_cons_of_returns {result : GetoptResult} (h : result.returns)
    (results : List GetoptResult) : seenOptions (result :: results) = [] := by
  simp [seenOptions, h]

theorem seenOptions_cons {result : GetoptResult} (h : result.returns = false)
    (results : List GetoptResult) :
    seenOptions (result :: results) = result :: seenOptions results := by
  simp [seenOptions, h]

/-- The options that the parser comes to are accepted: fine, and with one command at most. -/
def Accepted (results : List GetoptResult) (commands : ℕ) : Prop :=
  (∀ result ∈ seenOptions results, result.Fine) ∧
    commands + ((seenOptions results).filter GetoptResult.isCommand).length ≤ 1

theorem accepted_cons {result : GetoptResult} (h : result.returns = false)
    (results : List GetoptResult) (commands : ℕ) :
    Accepted (result :: results) commands ↔ result.Fine ∧
      Accepted results (commands + (if result.isCommand then 1 else 0)) := by
  rw [Accepted, Accepted, seenOptions_cons h, List.forall_mem_cons, List.filter_cons, and_assoc]
  cases result.isCommand with
  | false => rfl
  | true =>
    simp only [if_true, List.length_cons]
    rw [show commands + (((seenOptions results).filter GetoptResult.isCommand).length + 1) =
      commands + 1 + ((seenOptions results).filter GetoptResult.isCommand).length by omega]

/-- The last format asked for, or the one before the options. -/
def lastFormat (results : List GetoptResult) (format : ReportFormat) : ReportFormat :=
  ((seenOptions results).filterMap GetoptResult.format).getLastD format

theorem lastFormat_cons {result : GetoptResult} (h : result.returns = false)
    (results : List GetoptResult) (format : ReportFormat) :
    lastFormat (result :: results) format = lastFormat results (result.format.getD format) := by
  rw [lastFormat, seenOptions_cons h, List.filterMap_cons]
  cases result.format with
  | none => rfl
  | some asked =>
    simp only [List.getLastD_cons]
    rfl

/-- Accepted options are gone through, to the end or to one that returns. -/
theorem parseOptions_accepted {results : List GetoptResult} (options : CommandLineOpts N)
    (h : Accepted results options.commands) :
    ∃ options', options'.dumpFormat = lastFormat results options.dumpFormat ∧
      parseOptions results options =
        if results.any GetoptResult.returns then .returnOk options' else .next options' := by
  induction results generalizing options with
  | nil => exact ⟨options, rfl, rfl⟩
  | cons result results ih =>
    rw [parseOptions, List.any_cons]
    cases hreturns : result.returns with
    | true =>
      obtain ⟨options', hturn, hformat⟩ := parseOption_of_returns hreturns options
      rw [hturn, lastFormat, seenOptions_cons_of_returns hreturns]
      exact ⟨options', hformat, rfl⟩
    | false =>
      rw [accepted_cons hreturns] at h
      have hone := Nat.le_of_add_right_le h.2.2
      obtain ⟨options', hturn, hcommands, hformat⟩ := parseOption_fine hreturns h.1 hone
      rw [← hcommands] at h
      obtain ⟨ended, hended, hrest⟩ := ih options' h.2
      rw [hturn, lastFormat_cons hreturns, ← hformat]
      exact ⟨ended, hended, hrest⟩

/-- Any others end in a failure. -/
theorem parseOptions_not_accepted {results : List GetoptResult} (options : CommandLineOpts N)
    (h : ¬ Accepted results options.commands) : parseOptions results options = .failure := by
  induction results generalizing options with
  | nil =>
    refine absurd ⟨?_, ?_⟩ h
    · intro result hresult
      cases hresult
    · exact options.commands_le_one
  | cons result results ih =>
    rw [parseOptions]
    cases hreturns : result.returns with
    | true =>
      rw [Accepted, seenOptions_cons_of_returns hreturns] at h
      refine absurd ⟨?_, ?_⟩ h
      · intro result hresult
        cases hresult
      · exact options.commands_le_one
    | false =>
      rw [accepted_cons hreturns] at h
      by_cases hfine : result.Fine ∧ options.commands + (if result.isCommand then 1 else 0) ≤ 1
      · obtain ⟨options', hturn, hcommands, -⟩ := parseOption_fine hreturns hfine.1 hfine.2
        rw [hturn]
        exact ih options' (fun hrest => h ⟨hfine.1, hcommands ▸ hrest⟩)
      · rw [parseOption_not_fine hreturns hfine]

/-! ## Acceptance -/

theorem parseFiles_isSome (arguments : List Bytes) (options : CommandLineOpts N) :
    (parseFiles arguments options).isSome ↔ arguments ≠ [] := by
  cases arguments with
  | nil => simp [parseFiles]
  | cons inputFile rest => simp [parseFiles]

theorem acceptable_iff (results : List GetoptResult) (arguments : List Bytes) :
    Acceptable results arguments ↔
      Accepted results 0 ∧ (results.any GetoptResult.returns ∨ arguments ≠ []) := by
  rw [Accepted, Nat.zero_add]
  exact ⟨fun h => ⟨⟨h.fine, h.oneCommand⟩, h.input⟩, fun h => ⟨h.1.1, h.1.2, h.2⟩⟩

theorem parseCommandLine_isSome (results : List GetoptResult) (arguments : List Bytes) :
    (parseCommandLine results arguments (defaultCommandLineOpts : CommandLineOpts N)).isSome ↔
      Acceptable results arguments := by
  rw [acceptable_iff, parseCommandLine]
  by_cases h : Accepted results 0
  · obtain ⟨options, -, hoptions⟩ :=
      parseOptions_accepted (defaultCommandLineOpts : CommandLineOpts N) h
    rw [hoptions]
    cases hreturns : results.any GetoptResult.returns with
    | true => simp [h]
    | false => simpa [h] using parseFiles_isSome arguments options
  · rw [parseOptions_not_accepted (defaultCommandLineOpts : CommandLineOpts N) h]
    simp [h]

theorem parseFiles_dumpFormat {arguments : List Bytes} {options options' : CommandLineOpts N}
    (h : parseFiles arguments options = some options') :
    options'.dumpFormat = options.dumpFormat := by
  cases arguments with
  | nil => cases h
  | cons inputFile rest =>
    cases h
    rfl

/-- Among several format options the last one wins. -/
theorem lastFormat_wins {results : List GetoptResult} {arguments : List Bytes}
    {options : CommandLineOpts N}
    (h : parseCommandLine results arguments defaultCommandLineOpts = some options) :
    options.dumpFormat = lastFormat results .xml := by
  rw [parseCommandLine] at h
  by_cases haccepted : Accepted results 0
  · obtain ⟨ended, hformat, hended⟩ :=
      parseOptions_accepted (defaultCommandLineOpts : CommandLineOpts N) haccepted
    rw [hended] at h
    cases hreturns : results.any GetoptResult.returns with
    | true =>
      rw [hreturns, if_pos rfl] at h
      cases h
      exact hformat
    | false =>
      rw [hreturns, if_neg (by decide)] at h
      exact (parseFiles_dumpFormat h).trans hformat
  · rw [parseOptions_not_accepted (defaultCommandLineOpts : CommandLineOpts N)
      haccepted] at h
    cases h

/-! ## The exchange -/

theorem Equivalent.returns {result result' : GetoptResult} (h : Equivalent result result') :
    result.returns = false ∧ result'.returns = false := by
  cases h with
  | json | raw | xml | yaml => exact ⟨rfl, rfl⟩

theorem Equivalent.isCommand {result result' : GetoptResult} (h : Equivalent result result') :
    result.isCommand = false ∧ result'.isCommand = false := by
  cases h with
  | json | raw | xml | yaml => exact ⟨rfl, rfl⟩

theorem Equivalent.fine {result result' : GetoptResult} (h : Equivalent result result') :
    result.Fine := by
  cases h with
  | json | raw | xml | yaml => trivial

theorem Exchanged.any_returns {results results' : List GetoptResult}
    (h : Exchanged results results') :
    results'.any GetoptResult.returns = results.any GetoptResult.returns := by
  induction h with
  | nil => rfl
  | cons hfirst _ ih =>
    rw [List.any_cons, List.any_cons, ih]
    rcases hfirst with rfl | hequivalent
    · rfl
    · rw [hequivalent.returns.1, hequivalent.returns.2]

/-- The short options are accepted wherever the long ones are. -/
theorem Exchanged.accepted {results results' : List GetoptResult} (h : Exchanged results results')
    {commands : ℕ} (haccepted : Accepted results' commands) : Accepted results commands := by
  induction h generalizing commands with
  | nil => exact haccepted
  | @cons result result' results results' hfirst _ ih =>
    cases hreturns : result.returns with
    | true =>
      rw [Accepted, seenOptions_cons_of_returns hreturns]
      refine ⟨by simp, ?_⟩
      exact (Nat.le_add_right _ _).trans haccepted.2
    | false =>
      rcases hfirst with rfl | hequivalent
      · rw [accepted_cons hreturns] at haccepted ⊢
        exact ⟨haccepted.1, ih haccepted.2⟩
      · rw [accepted_cons hequivalent.returns.2, hequivalent.isCommand.2] at haccepted
        rw [accepted_cons hreturns, hequivalent.isCommand.1]
        exact ⟨hequivalent.fine, ih haccepted.2⟩

/-- The long option for xml is not accepted. -/
theorem XmlExchanged.not_accepted {results results' : List GetoptResult}
    (hxml : XmlExchanged results results') (h : Exchanged results results') {commands : ℕ} :
    ¬ Accepted results' commands := by
  induction h generalizing commands with
  | nil => exact hxml.elim
  | @cons result result' results results' hfirst _ ih =>
    intro haccepted
    rcases hxml with ⟨rfl, hne⟩ | ⟨hreturns, hxml⟩
    · rcases hfirst with heq | hequivalent
      · exact hne heq
      · cases hequivalent with
        | xml =>
          rw [accepted_cons rfl] at haccepted
          have hsome : (chainFormat (ascii "xml")).isSome := haccepted.1
          rw [chainFormat_xml] at hsome
          cases hsome
    · have hreturns' : result'.returns = false := by
        rcases hfirst with rfl | hequivalent
        · simpa using hreturns
        · exact hequivalent.returns.2
      rw [accepted_cons hreturns'] at haccepted
      exact ih hxml haccepted.2

theorem parseFiles_outcome {options options' : CommandLineOpts N}
    (h : SameOutcome options options') (arguments : List Bytes) :
    (parseFiles arguments options).map CommandLineOpts.outcome =
      (parseFiles arguments options').map CommandLineOpts.outcome := by
  obtain ⟨hcommand, hformat, -, -⟩ := CommandOutcome.mk.inj h
  cases arguments with
  | nil => rfl
  | cons inputFile rest =>
    simp only [parseFiles, Option.map_some, CommandLineOpts.outcome, hcommand, hformat]

/-- Exchanged without xml, the options have the same outcome. -/
theorem Exchanged.outcome {results results' : List GetoptResult} (h : Exchanged results results')
    (hxml : ¬ XmlExchanged results results') (arguments : List Bytes)
    (options : CommandLineOpts N) :
    (parseCommandLine results arguments options).map CommandLineOpts.outcome =
      (parseCommandLine results' arguments options).map CommandLineOpts.outcome := by
  have hturns := rel_parseOptions h hxml (rfl : SameOutcome options options)
  rw [parseCommandLine, parseCommandLine]
  generalize parseOptions results options = turn at hturns
  generalize parseOptions results' options = turn' at hturns
  cases hturns with
  | next hsame => exact parseFiles_outcome hsame arguments
  | returnOk hsame => exact congrArg some hsame
  | failure => rfl

/-- The short and the long options are interchangeable, and the last format wins, exactly if the
command line is rejected anyway or no `-x` is exchanged that the parser comes to. -/
theorem exchanged_iff {results results' : List GetoptResult} (h : Exchanged results results')
    (arguments : List Bytes) :
    ((parseCommandLine results arguments (defaultCommandLineOpts : CommandLineOpts N)).map
        CommandLineOpts.outcome =
      (parseCommandLine results' arguments (defaultCommandLineOpts : CommandLineOpts N)).map
        CommandLineOpts.outcome ∧
      ∀ options : CommandLineOpts N,
        parseCommandLine results arguments defaultCommandLineOpts = some options →
        options.dumpFormat = lastFormat results .xml) ↔
      (Acceptable results arguments → ¬ XmlExchanged results results') := by
  constructor
  · rintro ⟨hsame, -⟩ hacceptable hxml
    have hsome := (parseCommandLine_isSome (N := N) results arguments).mpr hacceptable
    rw [← Option.isSome_map (f := CommandLineOpts.outcome), hsame, Option.isSome_map,
      parseCommandLine_isSome, acceptable_iff] at hsome
    exact hxml.not_accepted h hsome.1
  · intro hxml
    refine ⟨?_, fun options hoptions => lastFormat_wins hoptions⟩
    by_cases hacceptable : Acceptable results arguments
    · exact h.outcome (hxml hacceptable) arguments defaultCommandLineOpts
    · have hacceptable' : ¬ Acceptable results' arguments := by
        rw [acceptable_iff] at hacceptable ⊢
        rintro ⟨haccepted, hinput⟩
        exact hacceptable ⟨h.accepted haccepted, by rwa [h.any_returns] at hinput⟩
      rw [← parseCommandLine_isSome (N := N), Option.not_isSome_iff_eq_none] at hacceptable
      rw [← parseCommandLine_isSome (N := N), Option.not_isSome_iff_eq_none] at hacceptable'
      rw [hacceptable, hacceptable']

/-- `-x -r -D` with its second option exchanged: a raw dump of the file. -/
theorem exchanged_iff_raw :
    ((parseCommandLine [.xml, .raw, .dump] [ascii "a.flv"]
        (defaultCommandLineOpts : CommandLineOpts ℚ)).map CommandLineOpts.outcome =
      (parseCommandLine [.xml, .dumpFormat (ascii "raw"), .dump] [ascii "a.flv"]
        (defaultCommandLineOpts : CommandLineOpts ℚ)).map CommandLineOpts.outcome ∧
      ∀ options : CommandLineOpts ℚ,
        parseCommandLine [.xml, .raw, .dump] [ascii "a.flv"] defaultCommandLineOpts = some options →
        options.dumpFormat = lastFormat [.xml, .raw, .dump] .xml) ∧
      lastFormat [.xml, .raw, .dump] .xml = .raw :=
  ⟨(exchanged_iff (.cons (.inl rfl) (.cons (.inr .raw) (.cons (.inl rfl) .nil))) _).mpr
    fun _ => by simp [XmlExchanged], by decide⟩

/-- `-x` with a file is accepted, `--dump-format=xml` with a file is not. -/
theorem not_exchanged :
    ¬ ∀ (results results' : List GetoptResult) (arguments : List Bytes),
      Exchanged results results' →
      (parseCommandLine results arguments (defaultCommandLineOpts : CommandLineOpts ℚ)).map
        CommandLineOpts.outcome =
      (parseCommandLine results' arguments (defaultCommandLineOpts : CommandLineOpts ℚ)).map
        CommandLineOpts.outcome ∧
      ∀ options : CommandLineOpts ℚ,
        parseCommandLine results arguments defaultCommandLineOpts = some options →
        options.dumpFormat = lastFormat results .xml := by
  intro h
  have hsame := (h [.xml] [.dumpFormat (ascii "xml")] [ascii "a.flv"]
    (.cons (.inr .xml) .nil)).1
  have hnone : parseCommandLine [.dumpFormat (ascii "xml")] [ascii "a.flv"]
      (defaultCommandLineOpts : CommandLineOpts ℚ) = none := by
    simp only [parseCommandLine, parseOptions, parseOption, parseDumpFormat_eq, chainFormat_xml]
  rw [hnone] at hsame
  cases hsame

end FlvMeta
