import RuleLang.Grammar.Statement
import RuleLang.Options
import RuleLang.Token.Lexer

/-!
From source text to trees. What there is to report about the words comes before what there is to
report about the statements.
-/
namespace RuleLang

open Grammar

namespace Options

def diagnose (o : Options) (faults : List Fault) : List Diagnostic :=
  faults.filterMap (Fault.diagnostic? o.maxDepth)

end Options

structure Parsed where
  program : Node
  lexical : List Diagnostic
  faults : List Fault
  options : Options

namespace Parsed

def diagnostics (p : Parsed) : List Diagnostic := p.lexical ++ p.options.diagnose p.faults

/-- Whether reading ended at a statement that was nested too deep. -/
def stoppedEarly (p : Parsed) : Bool := p.faults.any Fault.isTooDeep

end Parsed

/-- Reads a program. Statements that cannot be read are left out of it. -/
def parse (source : String) (file : Option String) (o : Options) : Parsed :=
  let lexed := lex source (o.fileFor file)
  let read := allStatements o.levels lexed.stream
  { program := .program read.nodes (wholeSpan lexed.stream.last)
    lexical := lexed.diagnostics
    faults := read.faults
    options := o }

/-- Reads a source text that is one expression. There is none if anything is reported. -/
def parseExpression (source : String) (file : Option String) (o : Options) :
    Option Node × List Diagnostic :=
  let lexed := lex source (o.fileFor file)
  match rule o.levels lexed.stream with
  | .ok expression _ =>
    (if lexed.diagnostics.isEmpty then some expression else none, lexed.diagnostics)
  | .error fault _ => (none, lexed.diagnostics ++ o.diagnose [fault])

end RuleLang
