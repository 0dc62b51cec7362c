import RuleLang.Proofs.Grammar.Depth
import RuleLang.Proofs.RoundTrip

/-!
Trees as deep as a limit allows. In the text `f(...) * a * a + a + a and a and a or a or a` each
chain is the first operand of the next looser one, so that all of them may use all levels, and so
may the argument but for one of them. Such a staircase fits the limit and has the greatest depth
that a source text may have (`chainDepth_read`), which is quadratic in the limit.
-/
namespace RuleLang

namespace Node

mutual

theorem chainDepth_bare (n : Node) : n.bare.chainDepth = n.chainDepth := by
  cases n with
  | program ns s => exact depths_bares 0 ns
  | variableDeclaration name initializer s =>
    simp only [bare, chainDepth, chainDepth_bare name, chainDepth_bare initializer]
  | expressionStatement e s => exact chainDepth_bare e
  | call callee ns s => simp only [bare, chainDepth, chainDepth_bare callee, depths_bares 1 ns]
  | unary o n s => exact chainDepth_bare n
  | binary o l r s => simp only [bare, chainDepth, chainDepth_bare l, chainDepth_bare r]
  | _ => rfl

theorem depths_bares (step : Nat) (ns : List Node) :
    chainDepth.depths step (bare.bares ns) = chainDepth.depths step ns := by
  cases ns with
  | nil => rfl
  | cons n ns =>
    simp only [bare.bares, chainDepth.depths, chainDepth_bare n, depths_bares step ns]

end

/-- A name that stands for any leaf. -/
def leaf : Node := .identifier "a" noSpan

/-- A chain with the given number of operators; all operands but the first one are leaves. -/
def chained (operator : String) : (count : Nat) → Node → Node
  | 0, n => n
  | count + 1, n => .binary operator (chained operator count n) leaf noSpan

/-- Chains of the four tiers, each of them the first operand of the next looser one. -/
def tower (count : Nat) (n : Node) : Node :=
  chained "or" count (chained "and" count (chained "+" count (chained "*" count n)))

/-- An expression whose text is nested the given number of levels deep below its own one. -/
def staircase : (levels : Nat) → Node
  | 0 => leaf
  | levels + 1 =>
    tower (levels + 1) (.call (.identifier "f" noSpan) [staircase levels] noSpan)

section Chained

variable {operator : String} {k : Nat} (h : operatorStrength? operator = some k)
include h

theorem strength_chained {n : Node} (hn : k < n.strength) (count : Nat) :
    k ≤ (chained operator count n).strength := by
  cases count with
  | zero => exact Nat.le_of_lt hn
  | succ count => simp only [chained, strength, h, Option.getD_some, Nat.le_refl]

theorem chainLength_chained {n : Node} (hn : k < n.strength) (count : Nat) :
    (chained operator count n).chainLength k = count := by
  induction count with
  | zero => exact chainLength_of_ne (Nat.ne_of_gt hn)
  | succ count ih => rw [chained, chainLength, if_pos h, ih]

/-- A chain is nested as deep as its first operand is, and at least as deep as its last one. -/
theorem nesting_chained (hk : k < atomStrength) (hne : k ≠ comparisonStrength) {n : Node}
    (hn : k < n.strength) (count : Nat) :
    (chained operator count n).nesting = max n.nesting count := by
  induction count with
  | zero => exact (Nat.max_zero _).symm
  | succ count ih =>
    have hleft : guardedNesting (leftNeeds k) (chained operator count n)
        (chained operator count n).nesting = max n.nesting count := by
      have := strength_chained h hn count
      rw [leftNeeds, if_neg hne, guardedNesting, if_neg (by omega), ih]
    have hright : guardedNesting (k + 1) leaf leaf.nesting = 0 := by
      rw [guardedNesting, if_neg (by change ¬atomStrength < k + 1; omega)]
      rfl
    simp only [chained, nesting, h, Option.getD_some, if_neg hne, hleft, hright,
      chainLength_chained h hn count]
    omega

omit h in
theorem chainDepth_chained (hmem : operator ∈ chainOperators) (count : Nat) (n : Node) :
    (chained operator count n).chainDepth = count + n.chainDepth := by
  induction count with
  | zero => exact (Nat.zero_add _).symm
  | succ count ih =>
    have hleaf : leaf.chainDepth = 0 := rfl
    rw [chained, chainDepth, ih, hleaf, weight, if_pos hmem]
    omega

omit h in
theorem isExpression_leaf : leaf.IsExpression :=
  .identifier ⟨⟨'a', [], rfl, by decide, List.forall_mem_nil _⟩, by decide⟩

omit h in
theorem isExpression_chained (hmem : operator ∈ operatorStrengths.map Prod.fst) {n : Node}
    (hn : n.IsExpression) (count : Nat) : (chained operator count n).IsExpression := by
  induction count with
  | zero => exact hn
  | succ count ih => exact .binary hmem ih isExpression_leaf

end Chained

section Tower

variable (count : Nat) {n : Node}

theorem nesting_tower (hn : n.strength = atomStrength) :
    (tower count n).nesting = max n.nesting count := by
  have hatom : 5 < n.strength := hn ▸ (by decide : 5 < atomStrength)
  have hproduct := strength_chained (show operatorStrength? "*" = some 5 from rfl) hatom count
  have hsum := strength_chained (show operatorStrength? "+" = some 4 from rfl) hproduct count
  have hconjunction :=
    strength_chained (show operatorStrength? "and" = some 2 from rfl) (Nat.le_of_lt hsum) count
  rw [tower, nesting_chained rfl (by decide) (by decide) hconjunction,
    nesting_chained rfl (by decide) (by decide) (Nat.le_of_lt hsum),
    nesting_chained rfl (by decide) (by decide) hproduct,
    nesting_chained rfl (by decide) (by decide) hatom]
  omega

theorem chainDepth_tower : (tower count n).chainDepth = 4 * count + n.chainDepth := by
  rw [tower, chainDepth_chained (by decide), chainDepth_chained (by decide),
    chainDepth_chained (by decide), chainDepth_chained (by decide)]
  omega

theorem isExpression_tower (hn : n.IsExpression) : (tower count n).IsExpression :=
  isExpression_chained (by decide) (isExpression_chained (by decide)
    (isExpression_chained (by decide) (isExpression_chained (by decide) hn count) count) count)
    count

end Tower

theorem nesting_staircase (levels : Nat) : (staircase levels).nesting = levels := by
  induction levels with
  | zero => rfl
  | succ levels ih =>
    rw [staircase, nesting_tower _ rfl, nesting, nesting.argumentNesting, nesting.argumentNesting,
      ih]
    omega

theorem chainDepth_staircase (levels : Nat) :
    (staircase levels).chainDepth = (2 * levels + 3) * levels := by
  induction levels with
  | zero => rfl
  | succ levels ih =>
    have hnext : (2 * (levels + 1) + 3) * (levels + 1) =
        4 * (levels + 1) + (1 + (2 * levels + 3) * levels) := by ring
    have hcall : (call (.identifier "f" noSpan) [staircase levels] noSpan).chainDepth =
        1 + (staircase levels).chainDepth := by
      simp only [chainDepth, chainDepth.depths, Nat.max_zero, Nat.zero_max]
    rw [staircase, chainDepth_tower, hcall, ih, hnext]

theorem isExpression_staircase (levels : Nat) : (staircase levels).IsExpression := by
  have hf : IsName "f" := ⟨⟨'f', [], rfl, by decide, List.forall_mem_nil _⟩, by decide⟩
  induction levels with
  | zero => exact isExpression_leaf
  | succ levels ih => exact isExpression_tower _ (.call hf (List.forall_mem_singleton.2 ih))

end Node

open Grammar

/-- The text of a staircase fits the limit that it is made for. -/
theorem exists_staircase (o : Options) (h : 0 < o.levels) : ∃ source,
    (parse source none o).diagnostics = [] ∧
    (parse source none o).program.chainDepth = (2 * o.levels + 1) * (o.levels - 1) := by
  obtain ⟨levels, hlevels⟩ := Nat.exists_eq_succ_of_ne_zero (Nat.ne_of_gt h)
  let n := Node.program [.expressionStatement (.staircase levels) Node.noSpan] Node.noSpan
  have hn : n.IsProgram := .program
    (List.forall_mem_singleton.2 (.expressionStatement (Node.isExpression_staircase levels)))
  have hfits : n.programNesting ≤ o.levels := by
    have hnesting : n.programNesting = 1 + (Node.staircase levels).nesting := Nat.max_zero _
    rw [hnesting, Node.nesting_staircase]
    omega
  obtain ⟨source, -, hwords⟩ := Node.exists_programText hn
  obtain ⟨hlexical, hshape, hfaults, -⟩ := parse_written hn hwords none o
  refine ⟨source, ?_, ?_⟩
  · rw [Parsed.diagnostics, hlexical, hfaults hfits]
    rfl
  · rw [Node.fitting_eq_self hfits, Node.sameShape_iff] at hshape
    have hdepth : n.chainDepth = (Node.staircase levels).chainDepth := by
      simp only [n, Node.chainDepth, Node.chainDepth.depths, Nat.max_zero, Nat.zero_add]
    rw [← Node.chainDepth_bare, hshape, Node.chainDepth_bare, hdepth, Node.chainDepth_staircase,
      hlevels]
    rfl

/-- A limit bounds the depth of whatever is read under it, but only by its square: in a source text
comparisons add nothing to a path, and then the bound is reached. -/
theorem chainDepth_read (o : Options) :
    (∀ (goal : Goal) (s : TokenStream) (n : Node),
      (goal.read o.levels s).outcome = .ok (some n) → n.chainDepth ≤ 2 * o.levels ^ 2 - 1) ∧
    (∀ (goal : Goal) (source file : String) (n : Node),
      (goal.read o.levels (lex source file).stream).outcome = .ok (some n) →
        n.chainDepth ≤ (2 * o.levels + 1) * (o.levels - 1)) ∧
    (0 < o.levels → ∃ source, (parse source none o).diagnostics = [] ∧
      (parse source none o).program.chainDepth = (2 * o.levels + 1) * (o.levels - 1)) :=
  ⟨fun _ _ _ h => chainDepth_of_tokens h, fun _ _ _ _ h => chainDepth_of_source h,
    exists_staircase o⟩

/-- Three operators on one path fit a limit of two levels. -/
theorem chainDepth_above_limit :
    let o : Options := { maxDepth := .int 2 }
    (parse "a * b and c or d" none o).diagnostics = [] ∧
    (parse "a * b and c or d" none o).program.chainDepth = 3 := by
  constructor
  · decide +kernel
  · decide +kernel

end RuleLang
