import RuleLang.Command.Arguments

/-!
The commands of the program, their options, and the pages that explain them.
-/
namespace RuleLang.Command

def programName : String := "qubit"

inductive Verb where
  | check | parse | tokens
  deriving DecidableEq, Repr

namespace Verb

/-- In the order in which the commands are listed. -/
def all : List Verb := [.check, .parse, .tokens]

def name : Verb → String
  | .check => "check"
  | .parse => "parse"
  | .tokens => "tokens"

def summary : Verb → String
  | .check => "Report diagnostics without printing the tree."
  | .parse => "Parse the source and print the resulting tree."
  | .tokens => "Print the token stream, one token per line."

def ofName? (name : String) : Option Verb := all.find? (·.name = name)

end Verb

/-- An option, and how its page shows it: its forms, and the lines that explain it. -/
structure OptionHelp where
  spec : OptionSpec
  forms : String
  lines : List String

def helpOption : OptionHelp :=
  ⟨⟨none, "--help", false⟩, "--help", ["Show this message and exit."]⟩

def versionOption : OptionHelp :=
  ⟨⟨none, "--version", false⟩, "--version", ["Show the version and exit."]⟩

def configOption : OptionHelp :=
  ⟨⟨none, "--config", true⟩, "--config FILE", ["YAML file with parser options."]⟩

def verboseOption : OptionHelp :=
  ⟨⟨some 'v', "--verbose", false⟩, "-v, --verbose", ["Enable debug logging."]⟩

def expressionOption : OptionHelp :=
  ⟨⟨some 'e', "--expr", true⟩, "-e, --expr TEXT",
    ["Use EXPR as the source instead of reading FILE."]⟩

def formatOption : OptionHelp :=
  ⟨⟨none, "--format", true⟩, "--format [json|source]",
    ["Print the AST as JSON or as re-serialized source.", "[default: json]"]⟩

def noSpansOption : OptionHelp :=
  ⟨⟨none, "--no-spans", false⟩, "--no-spans", ["Leave source spans out of the JSON."]⟩

def programOptions : List OptionHelp := [versionOption, configOption, verboseOption, helpOption]

def Verb.options : Verb → List OptionHelp
  | .check | .tokens => [expressionOption, helpOption]
  | .parse => [expressionOption, formatOption, noSpansOption, helpOption]

/-- Two columns: names, and behind the longest of them the lines that explain each. -/
def columns (rows : List (String × List String)) : String :=
  let width := (rows.map fun r => r.1.length).foldl max 0
  let pad (s : String) : String := s ++ String.ofList (List.replicate (width - s.length) ' ')
  let row (r : String × List String) : List String :=
    (r.2.zipIdx).map fun (line, i) =>
      "  " ++ pad (if i = 0 then r.1 else "") ++ "  " ++ line ++ "\n"
  String.join (rows.flatMap row)

def programUsage : String := "Usage: " ++ programName ++ " [OPTIONS] COMMAND [ARGS]...\n"

def Verb.usage (v : Verb) : String :=
  "Usage: " ++ programName ++ " " ++ v.name ++ " [OPTIONS] [FILE]\n"

def optionPart (options : List OptionHelp) : String :=
  "\nOptions:\n" ++ columns (options.map fun o => (o.forms, o.lines))

def programHelp : String :=
  programUsage ++ "\n  The Qubit rule language front end.\n" ++ optionPart programOptions ++
    "\nCommands:\n" ++ columns (Verb.all.map fun v => (v.name, [v.summary]))

def Verb.help (v : Verb) : String :=
  v.usage ++ "\n  " ++ v.summary ++ "\n" ++ optionPart v.options

end RuleLang.Command
