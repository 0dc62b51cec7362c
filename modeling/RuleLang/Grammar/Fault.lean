import RuleLang.Diagnostic
import RuleLang.Text.Quoted
import RuleLang.TokenStream

/-!
What may be wrong with a sequence of tokens. A fault is found at a token and is reported there,
unless the token is invalid by itself and so has been reported before. Tokens of a source text
always have a length; only those made by hand may not.
-/
namespace RuleLang.Grammar

inductive SyntaxError where
  | semicolonAfterDeclaration
  | semicolonAfterExpression
  | variableName
  | equalSign
  | endOfInput
  | chainedComparison
  | expression
  | closingParenthesis
  | closingArguments
  deriving DecidableEq, Repr

namespace SyntaxError

def message : SyntaxError → String
  | .semicolonAfterDeclaration => "Expected ';' after variable declaration"
  | .semicolonAfterExpression => "Expected ';' after expression"
  | .variableName => "Expected variable name after 'var'"
  | .equalSign => "Expected '=' after variable name"
  | .endOfInput => "Expected end of input after expression"
  | .chainedComparison => "Comparison operators cannot be chained"
  | .expression => "Expected expression"
  | .closingParenthesis => "Expected ')' after expression"
  | .closingArguments => "Expected ')' after call arguments"

def production : SyntaxError → String
  | .semicolonAfterDeclaration | .variableName | .equalSign => "VarDecl"
  | .semicolonAfterExpression => "ExprStmt"
  | .endOfInput => "Rule"
  | .chainedComparison => "Comparison"
  | .expression | .closingParenthesis => "Primary"
  | .closingArguments => "ArgList"

end SyntaxError

def describe (t : Token) : String :=
  if t.kind = .eof then "end of input" else t.kind.label ++ " " ++ Text.quoted t.lexeme

inductive Fault where
  | unexpected (error : SyntaxError) (found : Token)
  /-- The token would open a level of nesting beyond the limit. -/
  | tooDeep (found : Token)
  /-- The token's span has no length, so that it cannot be told whether the token is empty. -/
  | unmeasured (error : Span.LengthError) (found : Token)
  deriving DecidableEq

namespace Fault

def found : Fault → Token
  | .unexpected _ t => t
  | .tooDeep t => t
  | .unmeasured _ t => t

def message (limit : Number) : Fault → String
  | .unexpected error _ => error.message
  | .tooDeep _ => "Expression nesting exceeds maximum depth of " ++ limit.write .compact
  | .unmeasured error _ => error.message

/-- The diagnostic of a fault. A token that is invalid by itself gets no second one, and a token
without a length gets none. -/
def diagnostic? (limit : Number) : Fault → Option Diagnostic
  | .unexpected error t =>
    if t.kind = .invalid then none
    else
      some (.error (error.message ++ " (got " ++ describe t ++ ")") (some t.span)
        (some error.production))
  | .tooDeep t => some (.error ((Fault.tooDeep t).message limit) (some t.span) (some "Expression"))
  | .unmeasured .. => none

def isTooDeep : Fault → Bool
  | .tooDeep _ => true
  | _ => false

/-- Whether reading may go on with the next statement. -/
def isRecoverable : Fault → Bool
  | .unexpected .. => true
  | _ => false

end Fault

end RuleLang.Grammar
