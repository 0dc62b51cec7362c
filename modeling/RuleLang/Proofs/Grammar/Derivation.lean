import RuleLang.Grammar.Expression

/-!
The grammar of expressions, apart from any reader. A derivation is a way to form a list of tokens by
the rules of the grammar; it has a tree (`value`) and counts the levels of nesting (`nesting`).

    Expression     := LogicalOr
    LogicalOr      := LogicalAnd ( "or" LogicalAnd )*
    LogicalAnd     := Comparison ( "and" Comparison )*
    Comparison     := Additive ( ("<"|"<="|">"|">="|"=="|"!=") Additive )?
    Additive       := Multiplicative ( ("+"|"-") Multiplicative )*
    Multiplicative := Unary ( ("*"|"/") Unary )*
    Unary          := ("-"|"!")? Primary
    Primary        := Number | String | "true" | "false"
                    | Identifier ( "(" ArgList? ")" )? | "(" Expression ")"
    ArgList        := Expression ( "," Expression )*
-/
namespace RuleLang.Grammar

/-- The tiers whose operators are folded to the left. -/
inductive Chain where
  | disjunction | conjunction | additive | multiplicative
  deriving DecidableEq, Repr

/-- The tiers of operators, from the loosest to the tightest, and primaries. -/
inductive Tier where
  | chain (c : Chain) | comparison | unary | primary
  deriving DecidableEq, Repr

namespace Chain

def operand : Chain → Tier
  | .disjunction => .chain .conjunction
  | .conjunction => .comparison
  | .additive => .chain .multiplicative
  | .multiplicative => .unary

def operators : Chain → List Token.Kind
  | .disjunction => [.or]
  | .conjunction => [.and]
  | .additive => [.plus, .minus]
  | .multiplicative => [.star, .slash]

end Chain

inductive Nonterminal where
  | expression
  | tier (t : Tier)
  /-- A chain with the given number of operators. -/
  | folded (c : Chain) (count : Nat)
  | arguments
  /-- The arguments behind the first one, each behind a comma. -/
  | furtherArguments

/-- What a phrase stands for: a tree, or the trees of arguments. -/
abbrev Nonterminal.Value : Nonterminal → Type
  | .expression | .tier _ | .folded _ _ => Node
  | .arguments | .furtherArguments => List Node

inductive Derivation : Nonterminal → List Token → Type where
  | expression {ts : List Token} (body : Derivation (.tier (.chain .disjunction)) ts) :
      Derivation .expression ts
  | chain {c : Chain} {n : Nat} {ts : List Token} (operands : Derivation (.folded c n) ts) :
      Derivation (.tier (.chain c)) ts
  | first {c : Chain} {ts : List Token} (operand : Derivation (.tier c.operand) ts) :
      Derivation (.folded c 0) ts
  | fold {c : Chain} {n : Nat} {ts us : List Token} (left : Derivation (.folded c n) ts)
      (operator : Token) (h : operator.kind ∈ c.operators)
      (right : Derivation (.tier c.operand) us) :
      Derivation (.folded c (n + 1)) (ts ++ operator :: us)
  | uncompared {ts : List Token} (side : Derivation (.tier (.chain .additive)) ts) :
      Derivation (.tier .comparison) ts
  | compared {ts us : List Token} (left : Derivation (.tier (.chain .additive)) ts)
      (operator : Token) (h : operator.kind ∈ Token.Kind.comparisons)
      (right : Derivation (.tier (.chain .additive)) us) :
      Derivation (.tier .comparison) (ts ++ operator :: us)
  | plain {ts : List Token} (operand : Derivation (.tier .primary) ts) :
      Derivation (.tier .unary) ts
  | prefixed {ts : List Token} (operator : Token) (h : operator.kind ∈ [.minus, .bang])
      (operand : Derivation (.tier .primary) ts) : Derivation (.tier .unary) (operator :: ts)
  | literal (t : Token) (h : t.kind = .number ∨ t.kind = .string) :
      Derivation (.tier .primary) [t]
  | truth (t : Token) (h : t.kind = .true) : Derivation (.tier .primary) [t]
  | falsehood (t : Token) (h : t.kind = .false) : Derivation (.tier .primary) [t]
  | name (t : Token) (h : t.kind = .ident) : Derivation (.tier .primary) [t]
  | call {ts : List Token} (callee opening closing : Token) (hn : callee.kind = .ident)
      (ho : opening.kind = .lparen) (hc : closing.kind = .rparen)
      (inner : Derivation .arguments ts) :
      Derivation (.tier .primary) (callee :: opening :: (ts ++ [closing]))
  | group {ts : List Token} (opening closing : Token) (ho : opening.kind = .lparen)
      (hc : closing.kind = .rparen) (inner : Derivation .expression ts) :
      Derivation (.tier .primary) (opening :: (ts ++ [closing]))
  | noArguments : Derivation .arguments []
  | someArguments {ts us : List Token} (head : Derivation .expression ts)
      (further : Derivation .furtherArguments us) : Derivation .arguments (ts ++ us)
  | lastArgument : Derivation .furtherArguments []
  | nextArgument {ts us : List Token} (comma : Token) (h : comma.kind = .comma)
      (head : Derivation .expression ts) (further : Derivation .furtherArguments us) :
      Derivation .furtherArguments (comma :: (ts ++ us))

namespace Derivation

/-- The tree of a derivation. Parentheses only widen the span of the tree inside them. -/
def value : {y : Nonterminal} → {ts : List Token} → Derivation y ts → y.Value
  | _, _, expression body => body.value
  | _, _, chain operands => operands.value
  | _, _, first operand => operand.value
  | _, _, fold left operator _ right =>
    .binary operator.lexeme left.value right.value (left.value.span.merge right.value.span)
  | _, _, uncompared side => side.value
  | _, _, compared left operator _ right =>
    .binary operator.lexeme left.value right.value (left.value.span.merge right.value.span)
  | _, _, plain operand => operand.value
  | _, _, prefixed operator _ operand =>
    .unary operator.lexeme operand.value (operator.span.merge operand.value.span)
  | _, _, literal t _ => .literal t.value t.span
  | _, _, truth t _ => .literal (.bool true) t.span
  | _, _, falsehood t _ => .literal (.bool false) t.span
  | _, _, name t _ => .identifier t.lexeme t.span
  | _, _, call callee _ closing _ _ _ inner =>
    .call (.identifier callee.lexeme callee.span) inner.value (callee.span.merge closing.span)
  | _, _, group opening closing _ _ inner =>
    inner.value.withSpan (opening.span.merge closing.span)
  | _, _, noArguments => []
  | _, _, someArguments head further => head.value :: further.value
  | _, _, lastArgument => []
  | _, _, nextArgument _ _ head further => head.value :: further.value

/-- The levels of nesting of a derivation. An expression counts one level, and in a chain
`x₀ op x₁ ... op xₙ` the operand `xᵢ` stands `i` levels deep. -/
def nesting : {y : Nonterminal} → {ts : List Token} → Derivation y ts → Nat
  | _, _, expression body => 1 + body.nesting
  | _, _, chain operands => operands.nesting
  | _, _, first operand => operand.nesting
  | _, _, @fold _ n _ _ left _ _ right => max left.nesting (n + 1 + right.nesting)
  | _, _, uncompared side => side.nesting
  | _, _, compared left _ _ right => max left.nesting right.nesting
  | _, _, plain operand => operand.nesting
  | _, _, prefixed _ _ operand => operand.nesting
  | _, _, literal _ _ | _, _, truth _ _ | _, _, falsehood _ _ | _, _, name _ _ => 0
  | _, _, call _ _ _ _ _ _ inner => inner.nesting
  | _, _, group _ _ _ _ inner => inner.nesting
  | _, _, noArguments => 0
  | _, _, someArguments head further => max head.nesting further.nesting
  | _, _, lastArgument => 0
  | _, _, nextArgument _ _ head further => max head.nesting further.nesting

end Derivation

end RuleLang.Grammar
