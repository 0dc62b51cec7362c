import RuleLang.Command.Help
import RuleLang.Json.Printer
import RuleLang.Node.Printer
import RuleLang.Node.Record
import RuleLang.Options.File
import RuleLang.Parse
import RuleLang.Text.Blank
import RuleLang.Text.Terminal
import RuleLang.Version

/-!
What the program writes and how it ends, given its arguments, its files and its standard input. The
exit code is 0 if all is well, 1 if anything is reported about a source, and 2 if the program is not
used as it should be. Escape sequences of terminals are left out of all but the log.
-/
namespace RuleLang.Command

inductive Crash where
  /-- A source file is not text. -/
  | undecodable
  /-- A path or a scalar of the options file cannot be used at all. -/
  | badValue
  deriving DecidableEq, Repr

/-- What was written to standard output and to standard error, and how the program ended. -/
structure Outcome where
  code : Nat
  out : String
  err : String
  crash : Option Crash
  deriving DecidableEq

namespace Outcome

def ofOut (text : String) : Outcome := ⟨0, text, "", none⟩

def ofErr (code : Nat) (text : String) : Outcome := ⟨code, "", text, none⟩

def ofCrash (c : Crash) : Outcome := ⟨1, "", "", some c⟩

def after (err : String) (o : Outcome) : Outcome := { o with err := err ++ o.err }

end Outcome

inductive LogLevel where
  | debug | warning
  deriving DecidableEq, Repr

inductive LogEntry where
  | loaded (path : Path) (options : Options)
  | lexed (file : String) (tokens : Nat)
  | stopped (limit : WholeNumber)
  | parsed (file : String) (statements diagnostics : Nat)

namespace LogEntry

def level : LogEntry → LogLevel
  | .stopped _ => .warning
  | _ => .debug

/-- Which part of the program writes the line. -/
def source : LogEntry → String
  | .loaded .. => "qubitlib.config"
  | .lexed .. => "qubitlib.parser.lexer"
  | .stopped _ | .parsed .. => "qubitlib.parser.parser"

def message : LogEntry → String
  | .loaded path options =>
    "loaded parser options from " ++ path.toString ++ ": " ++ options.display
  | .lexed file tokens => "lexed " ++ file ++ ": " ++ toString tokens ++ " tokens"
  | .stopped limit =>
    "nesting limit of " ++ toString limit.value ++ " reached, parse stopped"
  | .parsed file statements diagnostics =>
    "parsed " ++ file ++ ": " ++ toString statements ++ " statements, " ++ toString diagnostics ++
      " diagnostics"

/-- The line, which is left out where only warnings are wanted and it is none. -/
def line (verbose : Bool) (e : LogEntry) : String :=
  match e.level with
  | .warning => "WARNING " ++ e.source ++ ": " ++ e.message ++ "\n"
  | .debug => if verbose then "DEBUG " ++ e.source ++ ": " ++ e.message ++ "\n" else ""

end LogEntry

def logText (verbose : Bool) (entries : List LogEntry) : String :=
  String.join (entries.map (LogEntry.line verbose))

def echo (line : String) : String := Text.stripEscapes line ++ "\n"

def misuse (usage help message : String) : Outcome :=
  .ofErr 2 (Text.stripEscapes
    (usage ++ "Try '" ++ help ++ " --help' for help.\n\n" ++ "Error: " ++ message ++ "\n"))

def programMisuse (message : String) : Outcome := misuse programUsage programName message

def Verb.misuse (v : Verb) (message : String) : Outcome :=
  Command.misuse v.usage (programName ++ " " ++ v.name) message

/-- The end of a program with a faulty option: only an option that does not exist is told apart from
the others by a hint at the help page. -/
def optionMisuse (told : String → Outcome) : OptionFault → Outcome
  | .unknown name similar => told (OptionFault.message (.unknown name similar))
  | e => .ofErr 2 (echo ("Error: " ++ e.message))

structure Source where
  text : String
  file : String

/-- A source that may be read: a text at hand, or the bytes of a file. -/
inductive Input where
  | text (s : String)
  | bytes (content : List UInt8) (file : String)

/-- The text of an input; line ends of a file are all alike. -/
def Input.source? (o : Options) : Input → Option Source
  | .text s => some ⟨s, o.filename⟩
  | .bytes content file =>
    match Text.decodeUtf8 content with
    | .ok cs => some ⟨String.ofList (Text.unifyNewlines cs), file⟩
    | .error _ => none

/-- The lines of diagnostics on standard error; there is nothing to show for one without a length,
which no source text gives. -/
def reportLines (ds : List Diagnostic) : String :=
  String.join (ds.map fun d =>
    match d.text with
    | .ok line => echo line
    | .error _ => "")

def reportCode (ds : List Diagnostic) : Nat := if ds.isEmpty then 0 else 1

/-- The line of a token: where it is, its kind and its text. -/
def tokenLine (t : Token) : String :=
  let line := toString t.span.line ++ ":" ++ toString t.span.column ++ " " ++ t.kind.label ++ " " ++
    t.lexeme
  String.ofList (Text.trimEnd line.toList)

def runTokens (verbose : Bool) (s : Source) : Outcome :=
  let lexed := lex s.text s.file
  { code := reportCode lexed.diagnostics
    out := String.join (lexed.tokens.map fun t => echo (tokenLine t))
    err := logText verbose [.lexed s.file lexed.tokens.length] ++ reportLines lexed.diagnostics
    crash := none }

inductive TreeFormat where
  | json (spans : Bool)
  | source
  deriving DecidableEq, Repr

/-- The text of a program's tree. A tree that was read from source always has one. -/
def treeText (program : Node) : TreeFormat → String
  | .json spans =>
    match program.dump spans (some 2) with
    | .ok text => text ++ "\n"
    | .error _ => ""
  | .source =>
    match program.programText with
    | .ok text => text
    | .error _ => ""

def statementCount : Node → Nat
  | .program statements _ => statements.length
  | _ => 0

def parseLog (s : Source) (p : Parsed) : List LogEntry :=
  [.lexed s.file (lex s.text s.file).tokens.length] ++
    (if p.stoppedEarly then [.stopped p.options.maxDepth] else []) ++
    [.parsed s.file (statementCount p.program) p.diagnostics.length]

def runParse (verbose : Bool) (o : Options) (format : TreeFormat) (s : Source) : Outcome :=
  let p := parse s.text (some s.file) o
  { code := reportCode p.diagnostics
    out := Text.stripEscapes (treeText p.program format)
    err := logText verbose (parseLog s p) ++ reportLines p.diagnostics
    crash := none }

/-- Prints how many statements a source has, if nothing is reported about it. -/
def runCheck (verbose : Bool) (o : Options) (s : Source) : Outcome :=
  let p := parse s.text (some s.file) o
  let count := toString (statementCount p.program)
  { code := reportCode p.diagnostics
    out := if p.diagnostics.isEmpty then echo (s.file ++ ": " ++ count ++ " statements, no errors")
      else ""
    err := logText verbose (parseLog s p) ++ reportLines p.diagnostics
    crash := none }

def stdinArgument : String := "-"

def stdinName : String := "<stdin>"

/-- The way a tree is to be printed, or the word that names none. -/
def readFormat (a : Arguments) : Except String TreeFormat :=
  match a.value? formatOption.spec.name with
  | none => .ok (.json (!a.has noSpansOption.spec.name))
  | some word =>
    if word = "json" then .ok (.json (!a.has noSpansOption.spec.name))
    else if word = "source" then .ok .source
    else .error word

def openFile (read : FileReader) (stdin : List UInt8) (argument : String) :
    Except FileError Input :=
  if argument = stdinArgument then .ok (.bytes stdin stdinName)
  else (read argument).map fun content => .bytes content argument

/-- Runs a command under the given options, with the arguments behind it. The file is opened even
where the source is an argument. -/
def Verb.run (v : Verb) (read : FileReader) (stdin : List UInt8) (verbose : Bool) (o : Options)
    (arguments : List String) : Outcome :=
  match Arguments.read (v.options.map (·.spec)) true arguments with
  | .error e => optionMisuse v.misuse e
  | .ok a =>
    if a.has helpOption.spec.name then .ofOut v.help
    else
      match readFormat a with
      | .error word =>
        v.misuse ("Invalid value for '--format': " ++ Text.quoted word ++
          " is not one of 'json', 'source'.")
      | .ok format =>
        match a.others.head?.mapM (openFile read stdin) with
        | .error .nullCharacter => .ofCrash .badValue
        | .error e =>
          v.misuse ("Invalid value for '[FILE]': '" ++ a.others.headD "" ++ "': " ++ e.message)
        | .ok file =>
          match a.others.drop 1 with
          | extra :: more =>
            let noun := if more.isEmpty then "argument" else "arguments"
            v.misuse ("Got unexpected extra " ++ noun ++ " (" ++ " ".intercalate (extra :: more) ++
              ")")
          | [] =>
            match ((a.value? expressionOption.spec.name).map Input.text).or file with
            | none => v.misuse "provide a FILE or --expr"
            | some input =>
              match input.source? o with
              | none => .ofCrash .undecodable
              | some s =>
                match v with
                | .tokens => runTokens verbose s
                | .parse => runParse verbose o format s
                | .check => runCheck verbose o s

def optionsMisuse (path : Path) : OptionsFileError → Outcome
  | .badScalar _ | .badPath => .ofCrash .badValue
  | .notYaml =>
    let told := programMisuse (OptionsFileError.message path .notYaml)
    { told with err := String.ofList told.err.toList.dropLast }
  | e => programMisuse (e.message path)

/-- The options that the program is told to use, and the log of how it got them. -/
def readOptions (read : FileReader) (verbose : Bool) :
    Option String → Except Outcome (Options × String)
  | none => .ok ({}, "")
  | some text =>
    let path := Path.ofString text
    match Options.load read path with
    | .ok o => .ok (o, logText verbose [.loaded path o])
    | .error e => .error (optionsMisuse path e)

/-- The arguments of the program: its own options, and then the command and the arguments behind it.
An option that asks for a page or for the version ends the program, as does one that is misused. -/
def readArguments (read : FileReader) (arguments : List String) : Except Outcome Arguments :=
  match Arguments.read (programOptions.map (·.spec)) false arguments with
  | .error e => .error (optionMisuse programMisuse e)
  | .ok a =>
    match a.first? [versionOption.spec.name, helpOption.spec.name] with
    | some name =>
      .error (.ofOut (if name = helpOption.spec.name then programHelp
        else programName ++ ", version " ++ version ++ "\n"))
    | none =>
      match (a.value? configOption.spec.name).map fun path => (path, read path) with
      | some (path, .error .isDirectory) =>
        .error (programMisuse
          ("Invalid value for '--config': File " ++ Text.quoted path ++ " is a directory."))
      | some (_, .error .nullCharacter) => .error (.ofCrash .badValue)
      | _ => .ok a

/-- The end of a program whose command does not exist. What looks like an option there, behind two
dashes alone, is taken for one of the program before it is found to be no command. -/
def unknownVerb (read : FileReader) (name : String) (arguments : List String) : Outcome :=
  let told := programMisuse ("No such command " ++ Text.quoted name ++ "." ++
    hint (suggestions name (Verb.all.map Verb.name)))
  if Arguments.isOption name.toList then
    match readArguments read (name :: arguments) with
    | .error o => o
    | .ok _ => told
  else told

def runVerb (read : FileReader) (stdin : List UInt8) (a : Arguments) : Outcome :=
  match a.others with
  | [] => programMisuse "Missing command."
  | name :: arguments =>
    match Verb.ofName? name with
    | none => unknownVerb read name arguments
    | some v =>
      let verbose := a.has verboseOption.spec.name
      match readOptions read verbose (a.value? configOption.spec.name) with
      | .error o => o
      | .ok (o, log) => (v.run read stdin verbose o arguments).after log

def run (read : FileReader) (stdin : List UInt8) (arguments : List String) : Outcome :=
  if arguments.isEmpty then .ofErr 2 programHelp
  else
    match readArguments read arguments with
    | .error o => o
    | .ok a => runVerb read stdin a

end RuleLang.Command
