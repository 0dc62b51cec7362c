import RuleLang.Command.Run
import RuleLang.Proofs.Text.Utf8

/-!
Command lines as they are meant. A command line names the program's settings, what is asked for, and
a source, either as a text or as a file. Arguments are read one after the other, each with those
behind it already read, so that a command line gives back what it was written for (`run_text`,
`run_file`).
-/
namespace RuleLang.Command

namespace Arguments

variable {specs : List OptionSpec} {mixed : Bool} {rest : List String} {a : Arguments}

theorem ne_dashes {argument : String} (h : isOption argument.toList = false) : argument ≠ "--" := by
  rintro rfl
  exact absurd h (by decide)

/-- The options that an argument gives stand in front of those behind it. -/
theorem read_flag (argument : String) {given : List Given} (hne : argument ≠ "--")
    (hoption : isOption argument.toList = true)
    (hgiven : readOption specs rest.head? argument.toList = .ok (given, false))
    (h : read specs mixed rest = .ok a) :
    read specs mixed (argument :: rest) = .ok { a with options := given ++ a.options } := by
  rw [read, if_neg hne, if_pos hoption, hgiven]
  simp only [h]
  rfl

/-- An option may take the next argument as its value. -/
theorem read_valued (argument : String) {value : String} {given : List Given}
    (hne : argument ≠ "--") (hoption : isOption argument.toList = true)
    (hgiven : readOption specs (some value) argument.toList = .ok (given, true))
    (h : read specs mixed rest = .ok a) :
    read specs mixed (argument :: value :: rest) =
      .ok { a with options := given ++ a.options } := by
  rw [read, if_neg hne, if_pos hoption, List.head?_cons, hgiven]
  simp only [h]
  rfl

theorem read_operand {argument : String} (hoption : isOption argument.toList = false) :
    read specs true [argument] = .ok ⟨[], [argument]⟩ := by
  rw [read, if_neg (ne_dashes hoption), hoption]
  rfl

theorem read_command {argument : String} (hoption : isOption argument.toList = false) :
    read specs false (argument :: rest) = .ok ⟨[], argument :: rest⟩ := by
  rw [read, if_neg (ne_dashes hoption), hoption]
  rfl

end Arguments

/-- The arguments that name a file: its path, behind two dashes if it looks like an option. -/
inductive IsOperand (path : String) : List String → Prop where
  | plain (h : Arguments.isOption path.toList = false) : IsOperand path [path]
  | behindDashes : IsOperand path ["--", path]

theorem IsOperand.read {specs : List OptionSpec} {path : String} {operand : List String}
    (h : IsOperand path operand) : Arguments.read specs true operand = .ok ⟨[], [path]⟩ := by
  cases h with
  | plain h => exact Arguments.read_operand h
  | behindDashes => rw [Arguments.read, if_pos rfl]

/-! ## Settings -/

/-- What the program is told in front of a command. -/
structure Settings where
  verbose : Bool
  /-- The path of an options file. -/
  config : Option String

namespace Settings

def arguments (g : Settings) : List String :=
  (if g.verbose then ["--verbose"] else []) ++
    match g.config with
    | none => []
    | some path => ["--config", path]

/-- The options that the settings give: those of the options file, or else the default ones. -/
def Give (g : Settings) (read : FileReader) (o : Options) : Prop :=
  match g.config with
  | none => o = {}
  | some path => Options.load read (.ofString path) = .ok o ∧
    read path ≠ .error .isDirectory ∧ read path ≠ .error .nullCharacter

/-- The log of the settings. -/
def log (g : Settings) (o : Options) : List LogEntry :=
  match g.config with
  | none => []
  | some path => [.loaded (.ofString path) o]

/-- The settings as options of the program. -/
def given (g : Settings) : List Given :=
  (if g.verbose then [⟨"--verbose", none⟩] else []) ++
    match g.config with
    | none => []
    | some path => [⟨"--config", some path⟩]

variable {g : Settings} {read : FileReader} {o : Options} {command : String} {rest : List String}

theorem read_arguments (hcommand : Arguments.isOption command.toList = false) :
    Arguments.read (programOptions.map (·.spec)) false (g.arguments ++ command :: rest) =
      .ok ⟨g.given, command :: rest⟩ := by
  have hend : Arguments.read (programOptions.map (·.spec)) false (command :: rest) =
      .ok ⟨[], command :: rest⟩ := Arguments.read_command hcommand
  obtain ⟨verbose, config⟩ := g
  have hconfig : Arguments.read (programOptions.map (·.spec)) false
      ((⟨false, config⟩ : Settings).arguments ++ command :: rest) =
        .ok ⟨(⟨false, config⟩ : Settings).given, command :: rest⟩ := by
    cases config with
    | none => exact hend
    | some path => exact Arguments.read_valued "--config" (by decide) (by decide) rfl hend
  cases verbose with
  | false => exact hconfig
  | true => exact Arguments.read_flag "--verbose" (by decide) (by decide) rfl hconfig

theorem readArguments_eq (h : g.Give read o)
    (hcommand : Arguments.isOption command.toList = false) :
    readArguments read (g.arguments ++ command :: rest) = .ok ⟨g.given, command :: rest⟩ := by
  obtain ⟨verbose, config⟩ := g
  rw [readArguments, read_arguments hcommand]
  cases config with
  | none => cases verbose <;> rfl
  | some path =>
    obtain ⟨-, hdirectory, hnull⟩ := h
    have hvalue : Arguments.value? ⟨(⟨verbose, some path⟩ : Settings).given, command :: rest⟩
        configOption.spec.name = some path := by
      cases verbose <;> rfl
    have hpage : Arguments.first? ⟨(⟨verbose, some path⟩ : Settings).given, command :: rest⟩
        [versionOption.spec.name, helpOption.spec.name] = none := by
      cases verbose <;> rfl
    simp only [hpage, hvalue, Option.map_some]
    -- the two errors that end the program, and all other answers of the reader
    split
    · rename_i heq
      exact absurd (Prod.mk.inj (Option.some.inj heq)).2 hdirectory
    · rename_i heq
      exact absurd (Prod.mk.inj (Option.some.inj heq)).2 hnull
    · rfl

theorem readOptions_eq (h : g.Give read o) :
    readOptions read g.verbose g.config = .ok (o, logText g.verbose (g.log o)) := by
  obtain ⟨verbose, config⟩ := g
  cases config with
  | none =>
    obtain rfl : o = {} := h
    rfl
  | some path =>
    obtain ⟨hload, -, -⟩ := h
    simp only [readOptions, hload]
    rfl

end Settings

/-! ## Requests -/

/-- The arguments that choose how a tree is printed. -/
def TreeFormat.arguments : TreeFormat → List String
  | .json true => []
  | .json false => ["--no-spans"]
  | .source => ["--format", "source"]

/-- What is asked for. -/
inductive Request where
  | tokens
  | parse (format : TreeFormat)
  | check
  deriving DecidableEq

namespace Request

def verb : Request → Verb
  | .tokens => .tokens
  | .parse _ => .parse
  | .check => .check

def flags : Request → List String
  | .parse format => format.arguments
  | .tokens | .check => []

/-- The command and its options. -/
def arguments (q : Request) : List String := q.verb.name :: q.flags

/-- What comes of the request for a source. -/
def outcome (verbose : Bool) (o : Options) (s : Source) : Request → Outcome
  | .tokens => runTokens verbose s
  | .parse format => runParse verbose o format s
  | .check => runCheck verbose o s

/-- The flags as options of the command. -/
def given : Request → List Given
  | .parse (.json false) => [⟨"--no-spans", none⟩]
  | .parse .source => [⟨"--format", some "source"⟩]
  | .parse (.json true) | .tokens | .check => []

/-- How a tree is printed if it is; without a flag that is JSON. -/
def format : Request → TreeFormat
  | .parse format => format
  | .tokens | .check => .json true

/-- To show something of all requests, show it for each choice of flags. -/
@[elab_as_elim]
theorem byFlags {P : Request → Prop} (tokens : P .tokens) (check : P .check)
    (spans : P (.parse (.json true))) (noSpans : P (.parse (.json false)))
    (source : P (.parse .source)) (q : Request) : P q := by
  cases q with
  | tokens => exact tokens
  | check => exact check
  | parse format =>
    cases format with
    | json b =>
      cases b with
      | true => exact spans
      | false => exact noSpans
    | source => exact source

variable (q : Request)

theorem read_flags {rest : List String} {a : Arguments}
    (h : Arguments.read (q.verb.options.map (·.spec)) true rest = .ok a) :
    Arguments.read (q.verb.options.map (·.spec)) true (q.flags ++ rest) =
      .ok { a with options := q.given ++ a.options } := by
  cases q using byFlags with
  | tokens | check | spans => exact h
  | noSpans => exact Arguments.read_flag "--no-spans" (by decide) (by decide) rfl h
  | source => exact Arguments.read_valued "--format" (by decide) (by decide) rfl h

variable {read : FileReader} {stdin : List UInt8} {verbose : Bool} {o : Options}

/-- The flags ask for no page, and for the format that they stand for. -/
theorem given_spec (others : List String) {more : List Given}
    (hmore : more = [] ∨ ∃ text, more = [⟨"--expr", some text⟩]) :
    Arguments.has ⟨q.given ++ more, others⟩ helpOption.spec.name = false ∧
      readFormat ⟨q.given ++ more, others⟩ = .ok q.format := by
  obtain rfl | ⟨text, rfl⟩ := hmore
  all_goals cases q using byFlags <;> exact ⟨rfl, rfl⟩

/-- A command whose arguments are in order does what it is asked for. -/
theorem run_of_read {arguments others : List String} {more : List Given} {file : Option Input}
    {input : Input} {s : Source}
    (hread : Arguments.read (q.verb.options.map (·.spec)) true arguments =
      .ok ⟨q.given ++ more, others⟩)
    (hmore : more = [] ∨ ∃ text, more = [⟨"--expr", some text⟩])
    (hfile : others.head?.mapM (openFile read stdin) = .ok file) (hothers : others.drop 1 = [])
    (hinput : ((Arguments.value? ⟨q.given ++ more, others⟩ expressionOption.spec.name).map
      Input.text).or file = some input)
    (hsource : input.source? o = some s) :
    q.verb.run read stdin verbose o arguments = q.outcome verbose o s := by
  obtain ⟨hhelp, hformat⟩ := q.given_spec others hmore
  rw [Verb.run, hread]
  simp only [hhelp, hformat, hfile, hothers, hinput, hsource]
  cases q <;> rfl

theorem run_expression (s : String) :
    q.verb.run read stdin verbose o (q.flags ++ ["-e", s]) =
      q.outcome verbose o ⟨s, o.filename⟩ := by
  have hgiven : Arguments.readOption (q.verb.options.map (·.spec)) (some s) "-e".toList =
      .ok ([⟨"--expr", some s⟩], true) := by
    cases q <;> rfl
  have hexpression : Arguments.read (q.verb.options.map (·.spec)) true ["-e", s] =
      .ok ⟨[⟨"--expr", some s⟩], []⟩ :=
    Arguments.read_valued "-e" (a := ⟨[], []⟩) (by decide) (by decide) hgiven rfl
  have hvalue : Arguments.value? ⟨q.given ++ [⟨"--expr", some s⟩], []⟩
      expressionOption.spec.name = some s := by
    cases q using byFlags <;> rfl
  exact q.run_of_read (q.read_flags hexpression) (.inr ⟨s, rfl⟩) rfl rfl
    (by rw [hvalue]; rfl) rfl

theorem run_operand {operand : List String} {path : String} {input : Input} {s : Source}
    (hoperand : Arguments.read (q.verb.options.map (·.spec)) true operand = .ok ⟨[], [path]⟩)
    (hopen : openFile read stdin path = .ok input) (hsource : input.source? o = some s) :
    q.verb.run read stdin verbose o (q.flags ++ operand) = q.outcome verbose o s := by
  have hfile : [path].head?.mapM (openFile read stdin) = .ok (some input) := by
    change (openFile read stdin path >>= fun input => pure (some input)) = _
    rw [hopen]
    rfl
  have hvalue : Arguments.value? ⟨q.given ++ [], [path]⟩ expressionOption.spec.name = none := by
    cases q using byFlags <;> rfl
  exact q.run_of_read (q.read_flags hoperand) (.inl rfl) hfile rfl (by rw [hvalue]; rfl) hsource

end Request

/-! ## Runs -/

section Runs

variable {g : Settings} {read : FileReader} {stdin : List UInt8} {o : Options}
  (h : g.Give read o) (q : Request)
include h

/-- The program reads its settings and does what it is asked for under the options they give. -/
theorem run_eq (rest : List String) :
    run read stdin (g.arguments ++ q.arguments ++ rest) =
      (q.verb.run read stdin g.verbose o (q.flags ++ rest)).after
        (logText g.verbose (g.log o)) := by
  have hname : Arguments.isOption q.verb.name.toList = false := by
    cases q.verb <;> decide
  have hverb : Verb.ofName? q.verb.name = some q.verb := by
    cases q.verb <;> rfl
  have hverbose : Arguments.has ⟨g.given, q.verb.name :: (q.flags ++ rest)⟩
      verboseOption.spec.name = g.verbose := by
    obtain ⟨verbose, config⟩ := g
    cases verbose <;> cases config <;> rfl
  have hconfig : Arguments.value? ⟨g.given, q.verb.name :: (q.flags ++ rest)⟩
      configOption.spec.name = g.config := by
    obtain ⟨verbose, config⟩ := g
    cases verbose <;> cases config <;> rfl
  have hsome : (g.arguments ++ q.verb.name :: (q.flags ++ rest)).isEmpty = false := by
    simp
  rw [List.append_assoc, Request.arguments, List.cons_append, run, hsome,
    Settings.readArguments_eq h hname]
  simp only [runVerb, hverb, hverbose, hconfig, Settings.readOptions_eq h]
  rfl

/-- Given a text, the program does what it is asked for with that text. -/
theorem run_text (s : String) :
    run read stdin (g.arguments ++ q.arguments ++ ["-e", s]) =
      (q.outcome g.verbose o ⟨s, o.filename⟩).after (logText g.verbose (g.log o)) := by
  rw [run_eq h, Request.run_expression]

/-- Given a file, the program does what it is asked for with the text of the file, in which all line
ends are alike. -/
theorem run_bytes {operand : List String} {path name s : String} (hoperand : IsOperand path operand)
    (hopen : openFile read stdin path = .ok (.bytes (Text.bytesOf s) name)) :
    run read stdin (g.arguments ++ q.arguments ++ operand) =
      (q.outcome g.verbose o ⟨String.ofList (Text.unifyNewlines s.toList), name⟩).after
        (logText g.verbose (g.log o)) := by
  have hsource : (Input.bytes (Text.bytesOf s) name).source? o =
      some ⟨String.ofList (Text.unifyNewlines s.toList), name⟩ := by
    simp only [Input.source?, Text.decodeUtf8_bytesOf]
  rw [run_eq h, q.run_operand hoperand.read hopen hsource]

/-- A text without carriage returns is read as it is. -/
theorem run_file {operand : List String} {path name s : String} (hoperand : IsOperand path operand)
    (hopen : openFile read stdin path = .ok (.bytes (Text.bytesOf s) name))
    (hreturn : '\r' ∉ s.toList) :
    run read stdin (g.arguments ++ q.arguments ++ operand) =
      (q.outcome g.verbose o ⟨s, name⟩).after (logText g.verbose (g.log o)) := by
  rw [run_bytes h q hoperand hopen, Text.unifyNewlines_of_not_mem hreturn, String.ofList_toList]

end Runs

end RuleLang.Command
