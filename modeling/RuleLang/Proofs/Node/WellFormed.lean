import RuleLang.Proofs.Token.Spelling

/-!
Well-formed trees: every part is where its kind belongs, operators are among those of the language,
and names and literals are such as have a spelling. Such a tree may also be built by hand: a prefix
operator may stand in front of any expression.
-/
namespace RuleLang.Node

/-- An expression. -/
inductive IsExpression : Node → Prop where
  | literal {value : Scalar} {span : Span} (h : value.IsLiteral) :
      IsExpression (.literal value span)
  | identifier {name : String} {span : Span} (h : IsName name) :
      IsExpression (.identifier name span)
  | call {name : String} {inner span : Span} {arguments : List Node} (h : IsName name)
      (ha : ∀ n ∈ arguments, IsExpression n) :
      IsExpression (.call (.identifier name inner) arguments span)
  | unary {operator : String} {operand : Node} {span : Span} (h : operator = "-" ∨ operator = "!")
      (ho : IsExpression operand) : IsExpression (.unary operator operand span)
  | binary {operator : String} {left right : Node} {span : Span}
      (h : operator ∈ operatorStrengths.map Prod.fst) (hl : IsExpression left)
      (hr : IsExpression right) : IsExpression (.binary operator left right span)

/-- A statement. -/
inductive IsStatement : Node → Prop where
  | variableDeclaration {name : String} {inner span : Span} {initializer : Node} (h : IsName name)
      (hi : IsExpression initializer) :
      IsStatement (.variableDeclaration (.identifier name inner) initializer span)
  | expressionStatement {expression : Node} {span : Span} (h : IsExpression expression) :
      IsStatement (.expressionStatement expression span)

/-- A program. -/
inductive IsProgram : Node → Prop where
  | program {statements : List Node} {span : Span} (h : ∀ n ∈ statements, IsStatement n) :
      IsProgram (.program statements span)

theorem IsExpression.withSpan {n : Node} (h : n.IsExpression) (s : Span) :
    (n.withSpan s).IsExpression := by
  cases h with
  | literal h => exact .literal h
  | identifier h => exact .identifier h
  | call h ha => exact .call h ha
  | unary h ho => exact .unary h ho
  | binary h hl hr => exact .binary h hl hr

theorem IsStatement.withSpan {n : Node} (h : n.IsStatement) (s : Span) :
    (n.withSpan s).IsStatement := by
  cases h with
  | variableDeclaration h hi => exact .variableDeclaration h hi
  | expressionStatement h => exact .expressionStatement h

end RuleLang.Node
