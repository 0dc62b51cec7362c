import RuleLang.Number
import RuleLang.Span

/-!
Syntax trees. One type holds every part of a tree, so that a tree may also be built by hand with
parts in the wrong place; a tree that was read from source never has one.
-/
namespace RuleLang

/-- A part of a syntax tree, with the extent of its source text. -/
inductive Node where
  | program (statements : List Node) (span : Span)
  | variableDeclaration (name initializer : Node) (span : Span)
  | expressionStatement (expression : Node) (span : Span)
  | literal (value : Scalar) (span : Span)
  | identifier (name : String) (span : Span)
  | call (callee : Node) (arguments : List Node) (span : Span)
  | unary (operator : String) (operand : Node) (span : Span)
  | binary (operator : String) (left right : Node) (span : Span)
  /-- Something that is no part of a syntax tree, of which only the name of its type is known. -/
  | foreign (typeName : String) (span : Span)

namespace Node

def typeName : Node → String
  | .program .. => "Program"
  | .variableDeclaration .. => "VariableDeclaration"
  | .expressionStatement .. => "ExpressionStatement"
  | .literal .. => "Literal"
  | .identifier .. => "Identifier"
  | .call .. => "CallExpression"
  | .unary .. => "UnaryExpression"
  | .binary .. => "BinaryExpression"
  | .foreign name _ => name

def span : Node → Span
  | .program _ s | .variableDeclaration _ _ s | .expressionStatement _ s | .literal _ s
  | .identifier _ s | .call _ _ s | .unary _ _ s | .binary _ _ _ s | .foreign _ s => s

def withSpan (s : Span) : Node → Node
  | .program statements _ => .program statements s
  | .variableDeclaration name initializer _ => .variableDeclaration name initializer s
  | .expressionStatement expression _ => .expressionStatement expression s
  | .literal value _ => .literal value s
  | .identifier name _ => .identifier name s
  | .call callee arguments _ => .call callee arguments s
  | .unary operator operand _ => .unary operator operand s
  | .binary operator left right _ => .binary operator left right s
  | .foreign name _ => .foreign name s

@[simp] theorem span_withSpan (s : Span) (n : Node) : (n.withSpan s).span = s := by
  cases n <;> rfl

/-- Whether two trees are equal but for the spans of their nodes. -/
def sameShape : Node → Node → Bool
  | .program ns _, .program ms _ => sameShapes ns ms
  | .variableDeclaration n i _, .variableDeclaration m j _ => sameShape n m && sameShape i j
  | .expressionStatement n _, .expressionStatement m _ => sameShape n m
  | .literal v _, .literal w _ => v = w
  | .identifier n _, .identifier m _ => n = m
  | .call n ns _, .call m ms _ => sameShape n m && sameShapes ns ms
  | .unary o n _, .unary p m _ => o = p && sameShape n m
  | .binary o l r _, .binary p l' r' _ => o = p && sameShape l l' && sameShape r r'
  | .foreign n _, .foreign m _ => n = m
  | _, _ => false
where
  sameShapes : List Node → List Node → Bool
    | [], [] => true
    | n :: ns, m :: ms => sameShape n m && sameShapes ns ms
    | _, _ => false

end Node

end RuleLang
