import RuleLang.Grammar.Goal
import RuleLang.Parse

/-!
A parser with a state. It keeps the whole stream and moves a position along it; it counts the levels
of nesting that are in use up and sets the counter back, instead of handing down the levels that are
left; and it reports a fault when it finds it. Each of its parts does what the reader of the same
name does.
-/
namespace RuleLang

namespace TokenStream

/-- The token at a position. From the end on it is the last one. -/
def tokenAt (source : TokenStream) (n : Nat) : Token := source.ahead[n]?.getD source.last

/-- The stream from a position on. -/
def dropped (source : TokenStream) (n : Nat) : TokenStream :=
  { source with ahead := source.ahead.drop n }

theorem current_dropped (source : TokenStream) (n : Nat) :
    (source.dropped n).current = source.tokenAt n := by
  rw [current, dropped, tokenAt, List.headD_eq_head?_getD, List.head?_drop]

/-- A token that is not an end mark stands in front of the end. -/
theorem lt_length_of_tokenAt {source : TokenStream} {n : Nat} (h : (source.tokenAt n).kind ≠ .eof) :
    n < source.ahead.length := by
  rcases Nat.lt_or_ge n source.ahead.length with hlt | hge
  · exact hlt
  · rw [tokenAt, List.getElem?_eq_none hge] at h
    exact absurd source.last_eof h

theorem advance_dropped {source : TokenStream} {n : Nat} (h : (source.tokenAt n).kind ≠ .eof) :
    (source.dropped n).advance = source.dropped (n + 1) := by
  have hn := lt_length_of_tokenAt h
  have hdrop : source.ahead.drop n = source.tokenAt n :: source.ahead.drop (n + 1) := by
    rw [List.drop_eq_getElem_cons hn, tokenAt, List.getElem?_eq_getElem hn, Option.getD_some]
  simp only [advance, dropped, hdrop, h, if_false]

end TokenStream

namespace Cursor

open Grammar

/-- What a parser keeps during a call and from one call to the next. -/
structure State where
  position : Nat := 0
  depth : Nat := 0
  diagnostics : List Diagnostic := []

/-- A part of a parser gives a value or a fault, and changes the state. -/
abbrev Action := EStateM Fault State

section Parser

variable (source : TokenStream) (o : Options)

/-! ## Tokens -/

def current : Action Token := fun σ => .ok (source.tokenAt σ.position) σ

/-- Passes the current token, unless it is an end mark. -/
def advance : Action Token := fun σ =>
  let t := source.tokenAt σ.position
  .ok t (if t.kind = .eof then σ else { σ with position := σ.position + 1 })

def remaining : Action Nat := fun σ => .ok (source.ahead.length - σ.position) σ

def accept (kinds : List Token.Kind) : Action (Option Token) := do
  if (← current source).kind ∈ kinds then return some (← advance source) else return none

variable {α : Type}

/-- Reports a fault, if it is one to report, and stops. -/
def fail (fault : Fault) : Action α := fun σ =>
  .error fault { σ with diagnostics := σ.diagnostics ++ o.diagnose [fault] }

def expect (kind : Token.Kind) (error : SyntaxError) : Action Token := do
  let t ← current source
  if t.kind = kind then advance source else fail o (.unexpected error t)

/-- Enters one more level of nesting at a token. -/
def nest (t : Token) : Action Unit := fun σ =>
  let deeper := { σ with depth := σ.depth + 1 }
  if o.maxDepth.value < deeper.depth then fail o (.tooDeep t) deeper else .ok () deeper

/-- The result with the counter of levels set to a value. -/
def withDepth (depth : Nat) : EStateM.Result Fault State α → EStateM.Result Fault State α
  | .ok a σ => .ok a { σ with depth := depth }
  | .error e σ => .error e { σ with depth := depth }

/-- Sets the counter of levels back, however the action ends. -/
def restoring (r : Action α) : Action α := fun σ => withDepth σ.depth (r σ)

/-! ## Expressions -/

/-- The operators and operands behind the first operand of a chain. Each operator takes a level, so
there are no more of them than levels. -/
def foldFrom (operand : Action Node) (kinds : List Token.Kind) : (count : Nat) → Node → Action Node
  | count, left => do
    match ← accept source kinds with
    | none => return left
    | some operator =>
      nest o operator
      let right ← operand
      match count with
      | 0 => throw (.tooDeep operator)
      | count + 1 => foldFrom operand kinds count (binary operator left right)

def fold (operand : Action Node) (kinds : List Token.Kind) : Action Node :=
  restoring do foldFrom source o operand kinds o.levels (← operand)

section Tiers

-- `nested` reads an expression.
variable (nested : Action Node)

def moreArguments : (count : Nat) → Action (List Node)
  | 0 => return []
  | count + 1 => do
    match ← accept source [.comma] with
    | none => return []
    | some _ =>
      let argument ← nested
      return argument :: (← moreArguments count)

def arguments : Action (List Node) := do
  if (← current source).kind = .rparen then return []
  else
    let argument ← nested
    return argument :: (← moreArguments source nested (← remaining source))

def call (callee : Node) : Action Node := do
  let _ ← advance source
  let arguments ← arguments source nested
  let close ← expect source o .rparen .closingArguments
  return .call callee arguments (callee.span.merge close.span)

def primary : Action Node := do
  let t ← current source
  match t.kind with
  | .number | .string =>
    let _ ← advance source
    return .literal t.value t.span
  | .true =>
    let _ ← advance source
    return .literal (.bool true) t.span
  | .false =>
    let _ ← advance source
    return .literal (.bool false) t.span
  | .ident =>
    let _ ← advance source
    let name := Node.identifier t.lexeme t.span
    if (← current source).kind = .lparen then call source o nested name else return name
  | .lparen =>
    let _ ← advance source
    let expression ← nested
    let close ← expect source o .rparen .closingParenthesis
    return expression.withSpan (t.span.merge close.span)
  | _ => fail o (.unexpected .expression t)

def unary : Action Node := do
  match ← accept source [.minus, .bang] with
  | none => primary source o nested
  | some operator =>
    let operand ← primary source o nested
    return .unary operator.lexeme operand (operator.span.merge operand.span)

def multiplicative : Action Node := fold source o (unary source o nested) [.star, .slash]

def additive : Action Node := fold source o (multiplicative source o nested) [.plus, .minus]

def comparison : Action Node := do
  let left ← additive source o nested
  match ← accept source Token.Kind.comparisons with
  | none => return left
  | some operator =>
    let right ← additive source o nested
    let t ← current source
    if t.kind ∈ Token.Kind.comparisons then fail o (.unexpected .chainedComparison t)
    else return binary operator left right

def conjunction : Action Node := fold source o (comparison source o nested) [.and]

def disjunction : Action Node := fold source o (conjunction source o nested) [.or]

end Tiers

/-- An expression enters a level, so at most `count` of them are nested in each other. -/
def expressionWithin : (count : Nat) → Action Node
  | 0 => do throw (.tooDeep (← current source))
  | count + 1 => restoring do
    nest o (← current source)
    disjunction source o (expressionWithin count)

/-- There is one expression more than levels at most, the one that does not get its level. -/
def expression : Action Node := expressionWithin source o (o.levels + 1)

/-! ## Statements -/

def terminator (error : SyntaxError) : Action (Option Token) := do
  match ← accept source [.semicolon] with
  | some t => return some t
  | none =>
    let t ← current source
    if t.kind = .eof then return none else fail o (.unexpected error t)

def terminated (statement : Node) : Option Token → Action Node
  | none => return statement
  | some t =>
    match t.span.isEmpty with
    | .ok true => return statement
    | .ok false => return statement.withSpan (statement.span.merge t.span)
    | .error e => fail o (.unmeasured e t)

def declaration : Action Node := do
  let word ← advance source
  let name ← expect source o .ident .variableName
  let _ ← expect source o .equal .equalSign
  let initializer ← expression source o
  return .variableDeclaration (.identifier name.lexeme name.span) initializer
    (word.span.merge initializer.span)

def statement : Action Node := do
  if (← current source).kind = .var then
    let statement ← declaration source o
    terminated o statement (← terminator source o .semicolonAfterDeclaration)
  else
    let expression ← expression source o
    let statement := Node.expressionStatement expression expression.span
    terminated o statement (← terminator source o .semicolonAfterExpression)

def rule : Action Node := do
  let expression ← expression source o
  let _ ← accept source [.semicolon]
  let _ ← expect source o .eof .endOfInput
  return expression

/-- Passes the tokens up to the next semicolon and that one, or up to the next end mark. -/
def synchronize (σ : State) : State :=
  if (source.tokenAt σ.position).kind = .eof then σ
  else
    let passed := { σ with position := σ.position + 1 }
    if (source.tokenAt σ.position).kind = .semicolon then passed else synchronize passed
termination_by source.ahead.length - σ.position
decreasing_by
  rename_i h _
  have := TokenStream.lt_length_of_tokenAt h
  omega

/-- The result with one more node in front. -/
def withNode (node : Node) :
    EStateM.Result Fault State (List Node) → EStateM.Result Fault State (List Node)
  | .ok nodes σ => .ok (node :: nodes) σ
  | .error fault σ => .error fault σ

/-- Reads up to `count` statements, and goes on behind those that are faulty. -/
def statements : (count : Nat) → Action (List Node)
  | 0, σ => .ok [] σ
  | count + 1, σ =>
    if (source.tokenAt σ.position).kind = .eof then .ok [] σ
    else
      match statement source o σ with
      | .ok node τ => withNode node (statements count τ)
      | .error (.tooDeep _) τ => .ok [] τ
      | .error (.unexpected ..) τ => statements count (synchronize source τ)
      | .error (.unmeasured e t) τ => .error (.unmeasured e t) τ

def program : Action Node := do
  return .program (← statements source o (← remaining source)) (wholeSpan source.last)

/-! ## Calls -/

/-- What a caller is told, and the state behind the call. -/
def told : EStateM.Result Fault State Node → Except Fault (Option Node) × State
  | .ok node σ => (.ok (some node), σ)
  | .error fault σ => (.error fault, σ)

/-- A fault of the grammar is not told to the caller. -/
def untold : EStateM.Result Fault State Node → Except Fault (Option Node) × State
  | .ok node σ => (.ok (some node), σ)
  | .error (.unmeasured e t) σ => (.error (.unmeasured e t), σ)
  | .error _ σ => (.ok none, σ)

/-- Reads one phrase. -/
def read (σ : State) : Goal → Except Fault (Option Node) × State
  | .statement => told (statement source o σ)
  | .expression => told (expression source o σ)
  | .rule => untold (rule source o σ)
  | .program => told (program source o σ)

/-- The state behind several calls, whatever they come to. -/
def readAll (σ : State) : List Goal → State
  | [] => σ
  | goal :: goals => readAll (read source o σ goal).2 goals

end Parser

end Cursor

end RuleLang
