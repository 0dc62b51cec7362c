import RuleLang.Node.Walk
import RuleLang.Proofs.Node.WellFormed

/-!
The parts of a tree. A part is the tree itself or a part of one of its children; below a program
they are statements and expressions. A walk that is not ended visits exactly the parts
(`mem_visited_walk`), each in front of those of its children. If the children of every part lie
within it, one behind the other, then a walk visits the parts by where they begin
(`pairwise_visited`).
-/
namespace RuleLang

namespace Walk

@[simp] theorem visited_append {v w : Walk} (h : v.stop = none) :
    (v ++ w).visited = v.visited ++ w.visited := by
  change (v.append w).visited = _
  simp [append, h]

@[simp] theorem stop_append {v w : Walk} :
    (v ++ w).stop = none ↔ v.stop = none ∧ w.stop = none := by
  change (v.append w).stop = none ↔ _
  cases hv : v.stop <;> simp [append, hv]

theorem append_nil (w : Walk) : w ++ nil = w := by
  change w.append nil = w
  obtain ⟨visited, stop⟩ := w
  cases stop <;> simp [append, nil]

theorem append_assoc (u v w : Walk) : u ++ v ++ w = u ++ (v ++ w) := by
  change (u.append v).append w = u.append (v.append w)
  obtain ⟨visited, stop⟩ := u
  obtain ⟨visited', stop'⟩ := v
  cases stop <;> cases stop' <;> simp [append]

end Walk

namespace Node

/-- The nodes directly below a node, from left to right. -/
def children : Node → List Node
  | .program statements _ => statements
  | .variableDeclaration name initializer _ => [name, initializer]
  | .expressionStatement expression _ => [expression]
  | .call callee arguments _ => callee :: arguments
  | .unary _ operand _ => [operand]
  | .binary _ left right _ => [left, right]
  | .literal .. | .identifier .. | .foreign .. => []

@[simp] theorem children_withSpan (s : Span) (n : Node) : (n.withSpan s).children = n.children := by
  cases n <;> rfl

theorem sizeOf_lt_of_mem_children {n c : Node} (h : c ∈ n.children) : sizeOf c < sizeOf n := by
  cases n with
  | program statements span =>
    have := List.sizeOf_lt_of_mem (show c ∈ statements from h)
    simp only [program.sizeOf_spec]
    omega
  | call callee arguments span =>
    obtain rfl | h := List.mem_cons.1 h
    · simp only [call.sizeOf_spec]
      omega
    · have := List.sizeOf_lt_of_mem h
      simp only [call.sizeOf_spec]
      omega
  | variableDeclaration | expressionStatement | unary | binary =>
    simp only [children, List.mem_cons, List.not_mem_nil, or_false] at h
    rcases h with rfl | rfl <;> simp <;> omega
  | literal | identifier | foreign => cases h

/-- What holds of a node if it holds of its children, holds of every node. -/
theorem children_induction {P : Node → Prop} (step : ∀ n, (∀ c ∈ n.children, P c) → P n)
    (n : Node) : P n :=
  step n fun c _ => children_induction step c
termination_by sizeOf n
decreasing_by exact sizeOf_lt_of_mem_children ‹_›

/-- The node is the tree, or part of one of its children. -/
inductive Part (m : Node) : Node → Prop
  | self : Part m m
  | child {n c : Node} (hc : c ∈ n.children) (h : Part m c) : Part m n

theorem Part.trans {l m n : Node} (h : Part l m) (h' : Part m n) : Part l n := by
  induction h' with
  | self => exact h
  | child hc _ ih => exact .child hc ih

/-! ## Programs -/

theorem IsExpression.of_mem_children {n c : Node} (h : n.IsExpression) (hc : c ∈ n.children) :
    c.IsExpression := by
  cases h with
  | literal | identifier => cases hc
  | call h ha =>
    obtain rfl | hc := List.mem_cons.1 hc
    · exact .identifier h
    · exact ha c hc
  | unary h ho => exact List.mem_singleton.1 hc ▸ ho
  | binary h hl hr =>
    obtain rfl | hc := List.mem_cons.1 hc
    · exact hl
    · exact List.mem_singleton.1 hc ▸ hr

theorem IsExpression.of_part {n m : Node} (h : n.IsExpression) (hm : m.Part n) :
    m.IsExpression := by
  induction hm with
  | self => exact h
  | child hc _ ih => exact ih (h.of_mem_children hc)

theorem IsStatement.of_mem_children {n c : Node} (h : n.IsStatement) (hc : c ∈ n.children) :
    c.IsExpression := by
  cases h with
  | variableDeclaration h hi =>
    obtain rfl | hc := List.mem_cons.1 hc
    · exact .identifier h
    · exact List.mem_singleton.1 hc ▸ hi
  | expressionStatement h => exact List.mem_singleton.1 hc ▸ h

/-- Below a program there are statements and expressions only. -/
theorem IsProgram.of_part {n m : Node} (h : n.IsProgram) (hm : m.Part n) :
    m = n ∨ m.IsStatement ∨ m.IsExpression := by
  cases hm with
  | self => exact .inl rfl
  | child hc hm =>
    have hstatement : ∀ c ∈ n.children, c.IsStatement := by
      cases h with
      | program h => exact h
    cases hm with
    | self => exact .inr (.inl (hstatement _ hc))
    | child hc' hm =>
      exact .inr (.inr (((hstatement _ hc).of_mem_children hc').of_part hm))

theorem IsProgram.isName_of_part {n : Node} (h : n.IsProgram) {name : String} {span : Span}
    (hm : (identifier name span).Part n) : IsName name := by
  obtain rfl | hm | hm := h.of_part hm
  · cases h
  · cases hm
  · cases hm with
    | identifier h => exact h

theorem IsProgram.isLiteral_of_part {n : Node} (h : n.IsProgram) {value : Scalar} {span : Span}
    (hm : (literal value span).Part n) : value.IsLiteral := by
  obtain rfl | hm | hm := h.of_part hm
  · cases h
  · cases hm
  · cases hm with
    | literal h => exact h

/-! ## Walks -/

theorem walkAll_eq_none {ns : List Node} :
    (walk.walkAll ns).stop = none ↔ ∀ n ∈ ns, n.walk.stop = none := by
  induction ns with
  | nil => simp [walk.walkAll, Walk.nil]
  | cons n ns ih => rw [walk.walkAll, Walk.stop_append, ih, List.forall_mem_cons]

theorem visited_walkAll {ns : List Node} (h : ∀ n ∈ ns, n.walk.stop = none) :
    (walk.walkAll ns).visited = ns.flatMap (·.walk.visited) := by
  induction ns with
  | nil => rfl
  | cons n ns ih =>
    obtain ⟨hn, hns⟩ := List.forall_mem_cons.1 h
    rw [walk.walkAll, Walk.visited_append hn, ih hns, List.flatMap_cons]

/-- Whether a part of a tree is no node. -/
def isForeign : Node → Bool
  | .foreign .. => true
  | _ => false

/-- A walk visits a node and goes on through its children. -/
theorem walk_of_known {n : Node} (h : n.isForeign = false) :
    n.walk = .visit n ++ walk.walkAll n.children := by
  cases n with
  | foreign => cases h
  | program => rfl
  | call => exact Walk.append_assoc ..
  | variableDeclaration | binary =>
    simp [walk, children, walk.walkAll, Walk.append_assoc, Walk.append_nil]
  | expressionStatement | unary | literal | identifier =>
    simp [walk, children, walk.walkAll, Walk.append_nil]

/-- A walk visits the node and walks through its children, unless it ends at the node. -/
theorem walk_eq (n : Node) :
    n.walk.stop ≠ none ∧ n.walk.visited = [n] ∨ n.walk = .visit n ++ walk.walkAll n.children := by
  cases h : n.isForeign with
  | false => exact .inr (walk_of_known h)
  | true =>
    cases n with
    | foreign => exact .inl ⟨nofun, rfl⟩
    | _ => cases h

section Unended

variable {n : Node} (h : n.walk.stop = none)
include h

theorem walk_of_unended : n.walk = .visit n ++ walk.walkAll n.children :=
  (walk_eq n).resolve_left fun hended => hended.1 h

theorem children_unended : ∀ c ∈ n.children, c.walk.stop = none := by
  rw [walk_of_unended h, Walk.stop_append] at h
  exact walkAll_eq_none.1 h.2

theorem visited_walk : n.walk.visited = n :: n.children.flatMap (·.walk.visited) := by
  have hchildren := visited_walkAll (children_unended h)
  rw [walk_of_unended h, Walk.visited_append rfl, hchildren]
  rfl

/-- A walk that is not ended visits the parts of its tree. -/
theorem mem_visited_walk {m : Node} : m ∈ n.walk.visited ↔ Part m n := by
  constructor
  · induction n using children_induction with
    | step n ih =>
      rw [visited_walk h]
      intro hm
      obtain rfl | hm := List.mem_cons.1 hm
      · exact .self
      · obtain ⟨c, hc, hm⟩ := List.mem_flatMap.1 hm
        exact .child hc (ih c hc (children_unended h c hc) hm)
  · intro hm
    induction hm with
    | self =>
      rw [visited_walk h]
      exact List.mem_cons_self
    | child hc _ ih =>
      rw [visited_walk h]
      exact List.mem_cons_of_mem _ (List.mem_flatMap.2 ⟨_, hc, ih (children_unended h _ hc)⟩)

end Unended

/-- The walk through a tree with all parts in place is not ended. -/
theorem IsExpression.walk_stop {n : Node} (h : n.IsExpression) : n.walk.stop = none := by
  induction h with
  | literal | identifier => rfl
  | call h ha ih => exact Walk.stop_append.2 ⟨Walk.stop_append.2 ⟨rfl, rfl⟩, walkAll_eq_none.2 ih⟩
  | unary h ho ih => exact Walk.stop_append.2 ⟨rfl, ih⟩
  | binary h hl hr ihl ihr => exact Walk.stop_append.2 ⟨Walk.stop_append.2 ⟨rfl, ihl⟩, ihr⟩

theorem IsProgram.walk_stop {n : Node} (h : n.IsProgram) : n.walk.stop = none := by
  have hstatement {m : Node} (hm : m.IsStatement) : m.walk.stop = none := by
    cases hm with
    | variableDeclaration _ hi =>
      exact Walk.stop_append.2 ⟨Walk.stop_append.2 ⟨rfl, rfl⟩, hi.walk_stop⟩
    | expressionStatement he => exact Walk.stop_append.2 ⟨rfl, he.walk_stop⟩
  cases h with
  | program hs =>
    exact Walk.stop_append.2 ⟨rfl, walkAll_eq_none.2 fun m hm => hstatement (hs m hm)⟩

/-! ## Places -/

/-- The children of the node lie within it, one behind the other. -/
structure Nested (n : Node) : Prop where
  forward : n.span.start ≤ n.span.stop
  within : ∀ c ∈ n.children, n.span.start ≤ c.span.start ∧ c.span.stop ≤ n.span.stop
  behind : n.children.Pairwise fun c d => c.span.stop ≤ d.span.start

theorem Part.within {m n : Node} (hm : Part m n) (h : ∀ m, Part m n → m.Nested) :
    n.span.start ≤ m.span.start ∧ m.span.stop ≤ n.span.stop := by
  induction hm with
  | self => exact ⟨Int.le_refl _, Int.le_refl _⟩
  | @child n c hc hm ih =>
    have hchild := (h n .self).within c hc
    have hpart := ih fun m hm => h m (.child hc hm)
    omega

/-- If the children of each part lie within it, one behind the other, then the parts are visited by
where they begin. -/
theorem pairwise_visited {n : Node} (hstop : n.walk.stop = none) (h : ∀ m, Part m n → m.Nested) :
    n.walk.visited.Pairwise fun l m => l.span.start ≤ m.span.start := by
  induction n using children_induction with
  | step n ih =>
    have hunended := children_unended hstop
    have hparts {c : Node} (hc : c ∈ n.children) : ∀ m, Part m c → m.Nested :=
      fun m hm => h m (.child hc hm)
    rw [visited_walk hstop]
    refine .cons (fun m hm => ?_) (List.pairwise_flatMap.2
      ⟨fun c hc => ih c hc (hunended c hc) (hparts hc),
        (h n .self).behind.imp_of_mem fun {c d} hc hd hbehind l hl m hm => ?_⟩)
    · obtain ⟨c, hc, hm⟩ := List.mem_flatMap.1 hm
      exact ((Part.child hc ((mem_visited_walk (hunended c hc)).1 hm)).within h).1
    · have hleft := (mem_visited_walk (hunended c hc)).1 hl
      have hright := (mem_visited_walk (hunended d hd)).1 hm
      have hforward := (h l (.child hc hleft)).forward
      have hstop := (hleft.within (hparts hc)).2
      have hstart := (hright.within (hparts hd)).1
      omega

end Node

end RuleLang
