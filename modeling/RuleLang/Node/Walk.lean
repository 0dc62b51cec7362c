import RuleLang.Node.Record

/-!
The nodes of a tree in the order of their first characters: each before its parts, the parts from
left to right. A part that is no node ends the walk, and is the last one visited.
-/
namespace RuleLang

/-- The nodes that were visited, and the part that ended the walk, if any. -/
structure Walk where
  visited : List Node
  stop : Option UnknownNode

namespace Walk

def nil : Walk := ⟨[], none⟩

/-- One walk behind another, unless the first one was ended. -/
def append (v w : Walk) : Walk :=
  match v.stop with
  | none => ⟨v.visited ++ w.visited, w.stop⟩
  | some e => ⟨v.visited, some e⟩

instance : Append Walk := ⟨append⟩

def visit (n : Node) : Walk := ⟨[n], none⟩

end Walk

namespace Node

def walk : Node → Walk
  | .program statements span => .visit (.program statements span) ++ walkAll statements
  | .variableDeclaration name initializer span =>
    .visit (.variableDeclaration name initializer span) ++ walk name ++ walk initializer
  | .expressionStatement expression span =>
    .visit (.expressionStatement expression span) ++ walk expression
  | .literal value span => .visit (.literal value span)
  | .identifier name span => .visit (.identifier name span)
  | .call callee arguments span =>
    .visit (.call callee arguments span) ++ walk callee ++ walkAll arguments
  | .unary operator operand span => .visit (.unary operator operand span) ++ walk operand
  | .binary operator left right span =>
    .visit (.binary operator left right span) ++ walk left ++ walk right
  | .foreign name span => ⟨[.foreign name span], some ⟨name⟩⟩
where
  walkAll : List Node → Walk
    | [] => .nil
    | n :: ns => walk n ++ walkAll ns

end Node

end RuleLang
