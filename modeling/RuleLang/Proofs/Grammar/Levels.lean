import RuleLang.Proofs.Grammar.Steps

/-!
Levels of nesting. A tier that has `levels` levels left calls the reader of nested expressions with
`levels` levels at most, so the bound on nested readers never shows (`expressionWithin_eq`), and an
expression is a disjunction whose nested expressions are expressions again (`expression_succ`).
-/
namespace RuleLang.Grammar

section Tiers

variable {nested nested' : Nat → Reader Node}

/-- Chains depend on their operands only at levels that do not exceed their own. -/
theorem chainFrom_congr {operand operand' : Nat → Reader Node} (kinds : List Token.Kind)
    {levels : Nat} (h : ∀ l ≤ levels, operand l = operand' l) (left : Node) :
    chainFrom operand kinds levels left = chainFrom operand' kinds levels left := by
  induction levels generalizing left with
  | zero =>
    unfold chainFrom
    rfl
  | succ levels ih =>
    have rest := ih fun l hl => h l (by omega)
    unfold chainFrom
    simp only [h levels (by omega), rest]

theorem chain_congr {operand operand' : Nat → Reader Node} (kinds : List Token.Kind)
    {levels : Nat} (h : ∀ l ≤ levels, operand l = operand' l) :
    chain operand kinds levels = chain operand' kinds levels := by
  unfold chain
  rw [h levels (Nat.le_refl _)]
  congr 1
  funext left
  exact chainFrom_congr kinds h left

theorem moreArguments_congr {levels : Nat} (h : nested levels = nested' levels) (count : Nat) :
    moreArguments nested levels count = moreArguments nested' levels count := by
  induction count with
  | zero => rfl
  | succ count ih =>
    unfold moreArguments
    rw [h, ih]

theorem primary_congr {levels : Nat} (h : nested levels = nested' levels) :
    primary nested levels = primary nested' levels := by
  have more := moreArguments_congr h
  unfold primary call arguments
  simp only [h, more]

theorem unary_congr {levels : Nat} (h : nested levels = nested' levels) :
    unary nested levels = unary nested' levels := by
  unfold unary
  rw [primary_congr h]

theorem additive_congr {levels : Nat} (h : ∀ l ≤ levels, nested l = nested' l) :
    additive nested levels = additive nested' levels :=
  chain_congr _ fun l hl => chain_congr _ fun k hk => unary_congr (h k (by omega))

theorem comparison_congr {levels : Nat} (h : ∀ l ≤ levels, nested l = nested' l) :
    comparison nested levels = comparison nested' levels := by
  unfold comparison
  rw [additive_congr h]

theorem disjunction_congr {levels : Nat} (h : ∀ l ≤ levels, nested l = nested' l) :
    disjunction nested levels = disjunction nested' levels :=
  chain_congr _ fun l hl => chain_congr _ fun k hk => comparison_congr fun j hj => h j (by omega)

end Tiers

/-- A bound that is not below the levels never shows. -/
theorem expressionWithin_eq {bound levels : Nat} (h : levels ≤ bound) :
    expressionWithin bound levels = expression levels := by
  induction levels using Nat.strongRecOn generalizing bound with
  | ind levels ih =>
    cases levels with
    | zero => cases bound <;> rfl
    | succ levels =>
      obtain ⟨bound, rfl⟩ : ∃ b, bound = b + 1 := ⟨bound - 1, by omega⟩
      change disjunction (expressionWithin bound) levels =
        disjunction (expressionWithin levels) levels
      apply disjunction_congr
      intro l hl
      rw [ih l (by omega) (by omega), ih l (by omega) hl]

theorem expression_zero (s : TokenStream) :
    expression 0 s = .error (.tooDeep s.current) s := rfl

/-- An expression takes one level; the expressions nested in it share the others. -/
theorem expression_succ (levels : Nat) :
    expression (levels + 1) = disjunction expression levels := by
  change disjunction (expressionWithin levels) levels = disjunction expression levels
  exact disjunction_congr fun l hl => expressionWithin_eq hl

end RuleLang.Grammar
