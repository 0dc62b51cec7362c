import RuleLang.Proofs.Node.Shape

/-!
What is kept of the places of a tree. An aspect of a span is a part of what it says that merging
respects, so that trees which are put together alike agree in it if their tokens do. Two of them
matter: nothing at all, and all but the name of the file. What is kept of the shape of a tree is
enough for its text (`programText_mapSpan`).
-/
namespace RuleLang

/-- A part of what a span says. That of a merged span comes from those of the merged ones. -/
structure Span.Aspect where
  of : Span → Span
  merge : ∀ s t : Span, of (s.merge t) = (of s).merge (of t)

namespace Span.Aspect

def nothing : Aspect := ⟨fun _ => Node.noSpan, fun _ _ => (merge_self _).symm⟩

/-- All but the name of the file. -/
def place : Aspect where
  of s := { s with file := "" }
  merge s t := by
    simp only [Span.merge]
    split <;> split <;> rfl

end Span.Aspect

namespace Node

/-- The tree with all its spans changed. -/
def mapSpan (f : Span → Span) : Node → Node
  | .program statements span => .program (mapSpans statements) (f span)
  | .variableDeclaration name initializer span =>
    .variableDeclaration (name.mapSpan f) (initializer.mapSpan f) (f span)
  | .expressionStatement expression span => .expressionStatement (expression.mapSpan f) (f span)
  | .literal value span => .literal value (f span)
  | .identifier name span => .identifier name (f span)
  | .call callee arguments span => .call (callee.mapSpan f) (mapSpans arguments) (f span)
  | .unary operator operand span => .unary operator (operand.mapSpan f) (f span)
  | .binary operator left right span =>
    .binary operator (left.mapSpan f) (right.mapSpan f) (f span)
  | .foreign name span => .foreign name (f span)
where
  /-- `mapSpan` for the nodes of a list. -/
  mapSpans : List Node → List Node
    | [] => []
    | n :: ns => n.mapSpan f :: mapSpans ns

variable (f : Span → Span)

theorem mapSpans_eq_map (ns : List Node) : mapSpan.mapSpans f ns = ns.map (mapSpan f) := by
  induction ns with
  | nil => rfl
  | cons n ns ih => rw [mapSpan.mapSpans, ih, List.map_cons]

@[simp] theorem span_mapSpan (n : Node) : (n.mapSpan f).span = f n.span := by
  cases n <;> rfl

@[simp] theorem mapSpan_withSpan (s : Span) (n : Node) :
    (n.withSpan s).mapSpan f = (n.mapSpan f).withSpan (f s) := by
  cases n <;> rfl

@[simp] theorem typeName_mapSpan (n : Node) : (n.mapSpan f).typeName = n.typeName := by
  cases n <;> rfl

mutual

theorem bare_mapSpan (n : Node) : (n.mapSpan f).bare = n.bare := by
  cases n with
  | program ns s => simp only [mapSpan, bare, bares_mapSpans ns]
  | variableDeclaration n i s => simp only [mapSpan, bare, bare_mapSpan n, bare_mapSpan i]
  | expressionStatement n s => simp only [mapSpan, bare, bare_mapSpan n]
  | call n ns s => simp only [mapSpan, bare, bare_mapSpan n, bares_mapSpans ns]
  | unary o n s => simp only [mapSpan, bare, bare_mapSpan n]
  | binary o l r s => simp only [mapSpan, bare, bare_mapSpan l, bare_mapSpan r]
  | literal | identifier | foreign => rfl

theorem bares_mapSpans (ns : List Node) :
    bare.bares (mapSpan.mapSpans f ns) = bare.bares ns := by
  cases ns with
  | nil => rfl
  | cons n ns => rw [mapSpan.mapSpans, bare.bares, bare_mapSpan n, bares_mapSpans ns, bare.bares]

end

mutual

theorem mapSpan_noSpan (n : Node) : n.mapSpan (fun _ => noSpan) = n.bare := by
  cases n with
  | program ns s => simp only [mapSpan, bare, mapSpans_noSpan ns]
  | variableDeclaration n i s => simp only [mapSpan, bare, mapSpan_noSpan n, mapSpan_noSpan i]
  | expressionStatement n s => simp only [mapSpan, bare, mapSpan_noSpan n]
  | call n ns s => simp only [mapSpan, bare, mapSpan_noSpan n, mapSpans_noSpan ns]
  | unary o n s => simp only [mapSpan, bare, mapSpan_noSpan n]
  | binary o l r s => simp only [mapSpan, bare, mapSpan_noSpan l, mapSpan_noSpan r]
  | literal | identifier | foreign => rfl

theorem mapSpans_noSpan (ns : List Node) :
    mapSpan.mapSpans (fun _ => noSpan) ns = bare.bares ns := by
  cases ns with
  | nil => rfl
  | cons n ns => rw [mapSpan.mapSpans, bare.bares, mapSpan_noSpan n, mapSpans_noSpan ns]

end

/-- The text of a tree does not depend on its places. -/
theorem programText_mapSpan (n : Node) : (n.mapSpan f).programText = n.programText := by
  rw [← programText_bare, bare_mapSpan, programText_bare]

end Node

end RuleLang
