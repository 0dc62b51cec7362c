import RuleLang.Node
import RuleLang.Text.Quoted

/-!
Syntax trees as source text. Operators stand between single spaces, statements end with a semicolon
and stand on lines of their own, and only those parentheses are written without which the text would
read as another tree.
-/
namespace RuleLang

inductive PrintError where
  | notExpression (typeName : String)
  | notStatement (typeName : String)
  | unknownOperator (operator : String)
  /-- A part that has to be a name, a literal or a program is not. -/
  | misplaced (typeName part : String)
  | valueless
  | unwritable
  deriving DecidableEq

def PrintError.message : PrintError → String
  | .notExpression name => "Unknown expression node: " ++ name
  | .notStatement name => "Unknown statement node: " ++ name
  | .unknownOperator operator => Text.quoted operator
  | .misplaced name part => "'" ++ name ++ "' object has no attribute '" ++ part ++ "'"
  | .valueless => "[<class 'decimal.ConversionSyntax'>]"
  | .unwritable => Number.unwritable

/-- How strongly the operators between two operands bind; the greater binds the tighter. -/
def operatorStrengths : List (String × Nat) :=
  [("or", 1), ("and", 2), ("<", 3), ("<=", 3), (">", 3), (">=", 3), ("==", 3), ("!=", 3),
   ("+", 4), ("-", 4), ("*", 5), ("/", 5)]

def operatorStrength? (operator : String) : Option Nat := operatorStrengths.lookup operator

/-- The strength of comparisons, which do not form chains. -/
def comparisonStrength : Nat := 3

def prefixStrength : Nat := 6

def atomStrength : Nat := 7

def escapeLiteralChar (c : Char) : List Char :=
  if c = '\\' then ['\\', '\\']
  else if c = '"' then ['\\', '"']
  else if c = '\n' then ['\\', 'n']
  else [c]

def literalText : Scalar → Except PrintError String
  | .null => .error .valueless
  | .bool true => .ok "true"
  | .bool false => .ok "false"
  | .number n => if n.isWritable then .ok (n.write .source) else .error .unwritable
  | .text s => .ok (String.ofList ('"' :: s.toList.flatMap escapeLiteralChar ++ ['"']))

namespace Node

/-- How strongly a node holds its parts together. -/
def strength : Node → Nat
  | .binary operator .. => (operatorStrength? operator).getD 0
  | .unary .. => prefixStrength
  | _ => atomStrength

/-- The text of a node that stands where at least the given strength is needed. -/
def guarded (needed : Nat) (n : Node) (text : String) : String :=
  if n.strength < needed then "(" ++ text ++ ")" else text

def nameText : Node → Except PrintError String
  | .identifier name _ => .ok name
  | n => .error (.misplaced n.typeName "name")

def expressionText : Node → Except PrintError String
  | .literal value _ => literalText value
  | .identifier name _ => .ok name
  | .call callee arguments _ => do
    let arguments ← expressionTexts arguments
    let name ← nameText callee
    return name ++ "(" ++ ", ".intercalate arguments ++ ")"
  | .unary operator operand _ => do
    return operator ++ guarded atomStrength operand (← expressionText operand)
  | .binary operator left right _ =>
    match operatorStrength? operator with
    | none => .error (.unknownOperator operator)
    | some k => do
      let leftText ← expressionText left
      let rightText ← expressionText right
      let leftNeeds := if k = comparisonStrength then k + 1 else k
      return guarded leftNeeds left leftText ++ " " ++ operator ++ " " ++
        guarded (k + 1) right rightText
  | n => .error (.notExpression n.typeName)
where
  expressionTexts : List Node → Except PrintError (List String)
    | [] => .ok []
    | n :: ns => do
      let text ← expressionText n
      return text :: (← expressionTexts ns)

def statementText : Node → Except PrintError String
  | .variableDeclaration name initializer _ => do
    let name ← nameText name
    return "var " ++ name ++ " = " ++ (← expressionText initializer) ++ ";"
  | .expressionStatement expression _ => do
    return (← expressionText expression) ++ ";"
  | n => .error (.notStatement n.typeName)

def programText : Node → Except PrintError String
  | .program statements _ => do
    let lines ← statements.mapM statementText
    return String.join (lines.map (· ++ "\n"))
  | n => .error (.misplaced n.typeName "statements")

def literalNodeText : Node → Except PrintError String
  | .literal value _ => literalText value
  | n => .error (.misplaced n.typeName "value")

end Node

end RuleLang
