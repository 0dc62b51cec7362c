import RuleLang.Grammar.Fault
import RuleLang.Node

/-!
Reading expressions. Each operator tier reads operands of the next tighter tier; a primary in
parentheses and an argument of a call are expressions again. The number of levels of nesting still
allowed goes down by one at each of those and at each operator that is folded into a chain, since
each puts a part of the tree one level deeper.
-/
namespace RuleLang.Grammar

/-- A reader takes tokens from a stream and gives a value or a fault. -/
abbrev Reader := EStateM Fault TokenStream

namespace Reader

def current : Reader Token := fun s => .ok s.current s

def advance : Reader Token := fun s => .ok s.current s.advance

/-- How many tokens are ahead of the end of the source. -/
def remaining : Reader Nat := fun s => .ok s.ahead.length s

/-- Passes the current token if it is of one of the kinds. -/
def accept (kinds : List Token.Kind) : Reader (Option Token) := fun s =>
  if s.current.kind ∈ kinds then .ok (some s.current) s.advance else .ok none s

/-- Passes the current token, which has to be of the given kind. -/
def expect (kind : Token.Kind) (error : SyntaxError) : Reader Token := fun s =>
  if s.current.kind = kind then .ok s.current s.advance else .error (.unexpected error s.current) s

end Reader

open Reader

def binary (operator : Token) (left right : Node) : Node :=
  .binary operator.lexeme left right (left.span.merge right.span)

/-- The operators and operands behind the first operand of a chain, folded to the left. With
`levels` levels left, each operator takes one of them for its right operand and for the rest of the
chain. -/
def chainFrom (operand : Nat → Reader Node) (kinds : List Token.Kind) :
    (levels : Nat) → Node → Reader Node
  | levels, left => do
    match ← accept kinds with
    | none => return left
    | some operator =>
      match levels with
      | 0 => throw (.tooDeep operator)
      | levels + 1 =>
        let right ← operand levels
        chainFrom operand kinds levels (binary operator left right)

def chain (operand : Nat → Reader Node) (kinds : List Token.Kind) (levels : Nat) : Reader Node := do
  chainFrom operand kinds levels (← operand levels)

section Tiers

-- `nested` reads an expression with a given number of levels left.
variable (nested : Nat → Reader Node)

/-- The arguments behind the first one, each behind a comma; at most `count` of them. -/
def moreArguments (levels : Nat) : (count : Nat) → Reader (List Node)
  | 0 => return []
  | count + 1 => do
    match ← accept [.comma] with
    | none => return []
    | some _ =>
      let argument ← nested levels
      return argument :: (← moreArguments levels count)

/-- The arguments of a call, up to the closing parenthesis. -/
def arguments (levels : Nat) : Reader (List Node) := do
  if (← current).kind = .rparen then return []
  else
    let argument ← nested levels
    return argument :: (← moreArguments nested levels (← remaining))

def call (callee : Node) (levels : Nat) : Reader Node := do
  let _ ← advance
  let arguments ← arguments nested levels
  let close ← expect .rparen .closingArguments
  return .call callee arguments (callee.span.merge close.span)

/-- A literal, a name, a call, or an expression in parentheses, which it takes into its extent. -/
def primary (levels : Nat) : Reader Node := do
  let t ← current
  match t.kind with
  | .number | .string =>
    let _ ← advance
    return .literal t.value t.span
  | .true =>
    let _ ← advance
    return .literal (.bool true) t.span
  | .false =>
    let _ ← advance
    return .literal (.bool false) t.span
  | .ident =>
    let _ ← advance
    let name := Node.identifier t.lexeme t.span
    if (← current).kind = .lparen then call nested name levels else return name
  | .lparen =>
    let _ ← advance
    let expression ← nested levels
    let close ← expect .rparen .closingParenthesis
    return expression.withSpan (t.span.merge close.span)
  | _ => throw (.unexpected .expression t)

/-- At most one prefix operator in front of a primary. -/
def unary (levels : Nat) : Reader Node := do
  match ← accept [.minus, .bang] with
  | none => primary nested levels
  | some operator =>
    let operand ← primary nested levels
    return .unary operator.lexeme operand (operator.span.merge operand.span)

def multiplicative : Nat → Reader Node := chain (unary nested) [.star, .slash]

def additive : Nat → Reader Node := chain (multiplicative nested) [.plus, .minus]

/-- At most one comparison. -/
def comparison (levels : Nat) : Reader Node := do
  let left ← additive nested levels
  match ← accept Token.Kind.comparisons with
  | none => return left
  | some operator =>
    let right ← additive nested levels
    let t ← current
    if t.kind ∈ Token.Kind.comparisons then throw (.unexpected .chainedComparison t)
    else return binary operator left right

def conjunction : Nat → Reader Node := chain (comparison nested) [.and]

def disjunction : Nat → Reader Node := chain (conjunction nested) [.or]

end Tiers

/-- Reads an expression with `levels` levels left, of which it takes one. All readers nested in it
have fewer levels left, so that a `bound` not below `levels` is never exhausted first. -/
def expressionWithin : (bound levels : Nat) → Reader Node
  | bound + 1, levels + 1 => disjunction (expressionWithin bound) levels
  | _, _ => do throw (.tooDeep (← current))

def expression (levels : Nat) : Reader Node := expressionWithin levels levels

end RuleLang.Grammar
