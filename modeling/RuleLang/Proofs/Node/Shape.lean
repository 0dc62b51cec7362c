import RuleLang.Node.Printer

/-!
Trees without their places. Two trees are of the same shape exactly when they are equal once their
places are dropped (`sameShape_iff`), and the text of a tree does not depend on them.
-/
namespace RuleLang.Node

/-- The span of trees whose place does not matter. -/
def noSpan : Span := ⟨"", 0, 0, 0, 0, 0, 0⟩

/-- The tree without the places of its nodes. -/
def bare : Node → Node
  | .program statements _ => .program (bares statements) noSpan
  | .variableDeclaration name initializer _ =>
    .variableDeclaration name.bare initializer.bare noSpan
  | .expressionStatement expression _ => .expressionStatement expression.bare noSpan
  | .literal value _ => .literal value noSpan
  | .identifier name _ => .identifier name noSpan
  | .call callee arguments _ => .call callee.bare (bares arguments) noSpan
  | .unary operator operand _ => .unary operator operand.bare noSpan
  | .binary operator left right _ => .binary operator left.bare right.bare noSpan
  | .foreign name _ => .foreign name noSpan
where
  /-- `bare` for the nodes of a list. -/
  bares : List Node → List Node
    | [] => []
    | n :: ns => n.bare :: bares ns

theorem bares_eq_map (ns : List Node) : bare.bares ns = ns.map bare := by
  induction ns with
  | nil => rfl
  | cons n ns ih => rw [bare.bares, ih, List.map_cons]

@[simp] theorem bare_withSpan (s : Span) (n : Node) : (n.withSpan s).bare = n.bare := by
  cases n <;> rfl

@[simp] theorem strength_bare (n : Node) : n.bare.strength = n.strength := by
  cases n <;> rfl

theorem nameText_bare (n : Node) : n.bare.nameText = n.nameText := by
  cases n <;> rfl

mutual

/-- Two trees are of the same shape if they are equal but for their places. -/
theorem sameShape_iff (n m : Node) : n.sameShape m = true ↔ n.bare = m.bare := by
  cases n with
  | program ns s =>
    cases m with
    | program ms t => simpa [sameShape, bare] using sameShapes_iff ns ms
    | _ => simp [sameShape, bare]
  | variableDeclaration n i s =>
    cases m with
    | variableDeclaration m j t =>
      simp [sameShape, bare, sameShape_iff n m, sameShape_iff i j]
    | _ => simp [sameShape, bare]
  | expressionStatement n s =>
    cases m with
    | expressionStatement m t => simp [sameShape, bare, sameShape_iff n m]
    | _ => simp [sameShape, bare]
  | literal v s => cases m <;> simp [sameShape, bare]
  | identifier name s => cases m <;> simp [sameShape, bare]
  | call n ns s =>
    cases m with
    | call m ms t => simp [sameShape, bare, sameShape_iff n m, sameShapes_iff ns ms]
    | _ => simp [sameShape, bare]
  | unary o n s =>
    cases m with
    | unary p m t => simp [sameShape, bare, sameShape_iff n m]
    | _ => simp [sameShape, bare]
  | binary o l r s =>
    cases m with
    | binary p l' r' t =>
      simp [sameShape, bare, sameShape_iff l l', sameShape_iff r r', and_assoc]
    | _ => simp [sameShape, bare]
  | foreign name s => cases m <;> simp [sameShape, bare]

theorem sameShapes_iff (ns ms : List Node) :
    sameShape.sameShapes ns ms = true ↔ bare.bares ns = bare.bares ms := by
  cases ns with
  | nil => cases ms <;> simp [sameShape.sameShapes, bare.bares]
  | cons n ns =>
    cases ms with
    | nil => simp [sameShape.sameShapes, bare.bares]
    | cons m ms =>
      simp [sameShape.sameShapes, bare.bares, sameShape_iff n m, sameShapes_iff ns ms]

end

mutual

theorem expressionText_bare (n : Node) : n.bare.expressionText = n.expressionText := by
  cases n with
  | call n ns s =>
    simp only [bare, expressionText, expressionTexts_bare ns, nameText_bare n]
  | unary o n s => simp only [bare, expressionText, guarded, strength_bare, expressionText_bare n]
  | binary o l r s =>
    simp only [bare, expressionText, guarded, strength_bare, expressionText_bare l,
      expressionText_bare r]
  | _ => rfl

theorem expressionTexts_bare (ns : List Node) :
    expressionText.expressionTexts (bare.bares ns) = expressionText.expressionTexts ns := by
  cases ns with
  | nil => rfl
  | cons n ns =>
    simp only [bare.bares, expressionText.expressionTexts, expressionText_bare n,
      expressionTexts_bare ns]

end

theorem statementText_bare (n : Node) : n.bare.statementText = n.statementText := by
  cases n with
  | variableDeclaration name initializer s =>
    simp only [bare, statementText, nameText_bare, expressionText_bare]
  | expressionStatement expression s => simp only [bare, statementText, expressionText_bare]
  | _ => rfl

/-- The text of a program does not depend on the places of its nodes. -/
theorem programText_bare (n : Node) : n.bare.programText = n.programText := by
  cases n with
  | program ns s =>
    have h : (bare.bares ns).mapM statementText = ns.mapM statementText := by
      induction ns with
      | nil => rfl
      | cons n ns ih =>
        rw [bare.bares, List.mapM_cons, List.mapM_cons, statementText_bare, ih]
    simp only [bare, programText, h]
  | _ => rfl

end RuleLang.Node
