import RuleLang.Grammar.Statement
import RuleLang.Options

/-!
What can be read from a token stream, and what comes of the attempt.
-/
namespace RuleLang.Grammar

inductive Goal where
  | statement
  | expression
  /-- One expression that fills the source. -/
  | rule
  | program
  deriving DecidableEq, Repr

/-- What comes of an attempt to read a phrase: a tree, nothing, or a fault that the reader is told;
the faults to report; and where reading ended. -/
structure Attempt where
  outcome : Except Fault (Option Node)
  faults : List Fault
  rest : TokenStream

namespace Attempt

def ofResult : EStateM.Result Fault TokenStream Node → Attempt
  | .ok node rest => ⟨.ok (some node), [], rest⟩
  | .error fault rest => ⟨.error fault, [fault], rest⟩

/-- An attempt that gives nothing on a fault. -/
def orNothing : EStateM.Result Fault TokenStream Node → Attempt
  | .ok node rest => ⟨.ok (some node), [], rest⟩
  | .error fault rest => ⟨.ok none, [fault], rest⟩

/-- The program of the statements that were read; a token without a length makes it fail. -/
def ofStatements (last : Token) (read : Statements) : Attempt :=
  match read.faults.getLast? with
  | some (.unmeasured e t) => ⟨.error (.unmeasured e t), read.faults, read.rest⟩
  | _ => ⟨.ok (some (.program read.nodes (wholeSpan last))), read.faults, read.rest⟩

end Attempt

def Goal.read (levels : Nat) (s : TokenStream) : Goal → Attempt
  | .statement => .ofResult (Grammar.statement levels s)
  | .expression => .ofResult (Grammar.expression levels s)
  | .rule => .orNothing (Grammar.rule levels s)
  | .program => .ofStatements s.last (allStatements levels s)

end RuleLang.Grammar
