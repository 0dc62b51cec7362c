import RuleLang.Grammar.Expression

/-!
Reading statements and whole programs. A statement ends with a semicolon, which the last one may
leave out. After a faulty statement reading goes on behind the next semicolon; a statement that is
nested too deep ends it.
-/
namespace RuleLang.Grammar

open Reader

/-- The semicolon behind a statement, if there is one; a statement without one ends the source. -/
def terminator (error : SyntaxError) : Reader (Option Token) := do
  match ← accept [.semicolon] with
  | some t => return some t
  | none =>
    let t ← current
    if t.kind = .eof then return none else throw (.unexpected error t)

/-- Takes a terminator into the extent of a statement, unless it is empty. -/
def terminated (statement : Node) : Option Token → Reader Node
  | none => return statement
  | some t =>
    match t.span.isEmpty with
    | .ok true => return statement
    | .ok false => return statement.withSpan (statement.span.merge t.span)
    | .error e => throw (.unmeasured e t)

/-- A variable declaration without its terminator. The current token is the reserved word. -/
def declaration (levels : Nat) : Reader Node := do
  let word ← advance
  let name ← expect .ident .variableName
  let _ ← expect .equal .equalSign
  let initializer ← expression levels
  return .variableDeclaration (.identifier name.lexeme name.span) initializer
    (word.span.merge initializer.span)

def statement (levels : Nat) : Reader Node := do
  if (← current).kind = .var then
    let statement ← declaration levels
    terminated statement (← terminator .semicolonAfterDeclaration)
  else
    let expression ← expression levels
    let statement := Node.expressionStatement expression expression.span
    terminated statement (← terminator .semicolonAfterExpression)

/-- Reads one expression that fills the source, but for a semicolon behind it. -/
def rule (levels : Nat) : Reader Node := do
  let expression ← expression levels
  let _ ← accept [.semicolon]
  let _ ← expect .eof .endOfInput
  return expression

/-- The statements that were read, the faults of the others, and where reading ended. -/
structure Statements where
  nodes : List Node
  faults : List Fault
  rest : TokenStream

def statements (levels : Nat) : (count : Nat) → TokenStream → Statements
  | 0, s => ⟨[], [], s⟩
  | count + 1, s =>
    if s.current.kind = .eof then ⟨[], [], s⟩
    else
      match statement levels s with
      | .ok node rest =>
        let more := statements levels count rest
        { more with nodes := node :: more.nodes }
      | .error fault rest =>
        if fault.isRecoverable then
          let more := statements levels count rest.synchronize
          { more with faults := fault :: more.faults }
        else ⟨[], [fault], rest⟩

/-- The statements up to the next end mark. Each takes at least one token, so there are no more of
them than tokens. -/
def allStatements (levels : Nat) (s : TokenStream) : Statements :=
  statements levels s.ahead.length s

def wholeSpan (last : Token) : Span :=
  ⟨last.span.file, 0, last.span.stop, 1, 1, last.span.stopLine, last.span.stopColumn⟩

end RuleLang.Grammar
