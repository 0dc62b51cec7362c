import RuleLang.Diagnostic.Record
import RuleLang.Json.Printer
import RuleLang.Node

/-!
Syntax trees as JSON values, and the texts of these. Each node becomes an object that begins with
its type and, where spans are wanted, ends with its span.
-/
namespace RuleLang

/-- A part of a tree that is no node. -/
structure UnknownNode where
  typeName : String
  deriving DecidableEq

def UnknownNode.message (e : UnknownNode) : String := "Unknown AST node: " ++ e.typeName

/-- What a literal is called by its value. -/
def Scalar.literalKind : Scalar → String
  | .bool _ => "boolean"
  | .text _ => "string"
  | .number _ | .null => "number"

namespace Node

def object (spans : Bool) (n : Node) (fields : List (String × Json)) : Json :=
  .object (("type", .string n.typeName) :: fields ++
    if spans then [("span", n.span.record)] else [])

def record (spans : Bool) : Node → Except UnknownNode Json
  | .program statements span => do
    let items ← records statements
    return object spans (.program statements span) [("statements", .array items)]
  | .variableDeclaration name initializer span => do
    let nameRecord ← record spans name
    let initializerRecord ← record spans initializer
    return object spans (.variableDeclaration name initializer span)
      [("name", nameRecord), ("initializer", initializerRecord)]
  | .expressionStatement expression span => do
    let expressionRecord ← record spans expression
    return object spans (.expressionStatement expression span) [("expression", expressionRecord)]
  | .literal value span =>
    return object spans (.literal value span)
      [("kind", .string value.literalKind), ("value", .ofScalar value)]
  | .identifier name span =>
    return object spans (.identifier name span) [("name", .string name)]
  | .call callee arguments span => do
    let calleeRecord ← record spans callee
    let items ← records arguments
    return object spans (.call callee arguments span)
      [("callee", calleeRecord), ("arguments", .array items)]
  | .unary operator operand span => do
    let operandRecord ← record spans operand
    return object spans (.unary operator operand span)
      [("operator", .string operator), ("operand", operandRecord)]
  | .binary operator left right span => do
    let leftRecord ← record spans left
    let rightRecord ← record spans right
    return object spans (.binary operator left right span)
      [("operator", .string operator), ("left", leftRecord), ("right", rightRecord)]
  | .foreign name _ => throw ⟨name⟩
where
  records : List Node → Except UnknownNode (List Json)
    | [] => return []
    | n :: ns => do
      let r ← record spans n
      return r :: (← records ns)

end Node

inductive DumpError where
  | unknownNode (e : UnknownNode)
  /-- An integer has too many digits. -/
  | unwritable
  deriving DecidableEq

def DumpError.message : DumpError → String
  | .unknownNode e => e.message
  | .unwritable => Number.unwritable

/-- The JSON text of a tree. -/
def Node.dump (spans : Bool) (indent : Option Int) (n : Node) : Except DumpError String :=
  match n.record spans with
  | .error e => .error (.unknownNode e)
  | .ok v => if v.isWritable then .ok (v.text indent) else .error .unwritable

end RuleLang
