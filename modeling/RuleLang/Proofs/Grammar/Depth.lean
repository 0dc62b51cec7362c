import Mathlib.Tactic.Ring
import RuleLang.Proofs.Grammar.Leftover
import RuleLang.Proofs.Grammar.Trees

/-!
How deep the trees are that fit a limit. A chain keeps its levels to itself: behind it, and in the
chain that it is the first operand of, they are free again. So a path may go down all operators of a
disjunction, then all of a conjunction, of a sum and of a product, before it enters an argument with
one level less; its length is quadratic in the levels (`chainDepth_read`).
-/
namespace RuleLang

namespace Node

/-- The operators whose chains are folded to the left. -/
def chainOperators : List String := ["or", "and", "+", "-", "*", "/"]

/-- What an operator adds to the paths through it. -/
def weight (operator : String) : Nat := if operator ∈ chainOperators then 1 else 0

/-- The greatest number, on a path from the node to a leaf, of chain operators and of calls that the
path enters through an argument. -/
def chainDepth : Node → Nat
  | .program statements _ => depths 0 statements
  | .variableDeclaration name initializer _ => max name.chainDepth initializer.chainDepth
  | .expressionStatement expression _ => expression.chainDepth
  | .call callee arguments _ => max callee.chainDepth (depths 1 arguments)
  | .unary _ operand _ => operand.chainDepth
  | .binary operator left right _ => weight operator + max left.chainDepth right.chainDepth
  | _ => 0
where
  /-- The greatest number on the paths from several nodes, with `step` more on each. -/
  depths (step : Nat) : List Node → Nat
    | [] => 0
    | n :: ns => max (step + n.chainDepth) (depths step ns)

@[simp] theorem chainDepth_withSpan (s : Span) (n : Node) :
    (n.withSpan s).chainDepth = n.chainDepth := by
  cases n <;> rfl

theorem weight_le_one (operator : String) : weight operator ≤ 1 := by
  unfold weight
  split <;> omega

theorem depths_le {step bound : Nat} {ns : List Node} (h : ∀ n ∈ ns, step + n.chainDepth ≤ bound) :
    chainDepth.depths step ns ≤ bound := by
  induction ns with
  | nil => exact Nat.zero_le _
  | cons n ns ih =>
    obtain ⟨hn, hns⟩ := List.forall_mem_cons.1 h
    exact Nat.max_le.2 ⟨hn, ih hns⟩

end Node

namespace Grammar

open Reader

/-! ## Expressions -/

/-- A bound above the paths of an expression with the given levels. An operator of a comparison adds
at most `c` to a path. -/
def reach (c : Nat) : (levels : Nat) → Nat
  | 0 => 0
  | levels + 1 => reach c levels + 4 * levels + c + 1

theorem reach_eq (c levels : Nat) : reach c levels + levels = (2 * levels + c) * levels := by
  induction levels with
  | zero => rfl
  | succ levels ih =>
    have hnext : (2 * (levels + 1) + c) * (levels + 1) =
        (2 * levels + c) * levels + 4 * levels + c + 2 := by
      simp only [Nat.mul_add, Nat.add_mul]
      omega
    rw [reach, hnext, ← ih]
    omega

namespace Tier

/-- How many chains of different tiers a path may go down from a tier on. -/
def chains : Tier → Nat
  | .chain .disjunction => 4
  | .chain .conjunction => 3
  | .comparison | .chain .additive => 2
  | .chain .multiplicative => 1
  | .unary | .primary => 0

/-- What comparisons may add to a path from a tier on. -/
def compared (c : Nat) : Tier → Nat
  | .chain .disjunction | .chain .conjunction | .comparison => c
  | _ => 0

/-- A bound of the paths of a phrase with the given levels. -/
def bound (c levels : Nat) (t : Tier) : Nat := t.chains * levels + t.compared c + reach c levels

theorem bound_chain (c levels : Nat) (k : Chain) :
    (Tier.chain k).bound c levels = levels + k.operand.bound c levels := by
  cases k <;> simp only [bound, chains, compared, Chain.operand] <;> omega

end Tier

/-- The paths of what a phrase with the given levels stands for. -/
def Within (c levels : Nat) : (y : Nonterminal) → y.Value → Prop
  | .expression, n => n.chainDepth < reach c levels
  | .tier t, n => n.chainDepth ≤ t.bound c levels
  | .folded k count, n => n.chainDepth ≤ count + k.operand.bound c levels
  | .arguments, ns | .furtherArguments, ns => Node.chainDepth.depths 1 ns ≤ reach c levels

theorem count_le_nesting {k : Chain} {count : Nat} {ts : List Token}
    (d : Derivation (.folded k count) ts) : count ≤ d.nesting := by
  cases d with
  | first => exact Nat.zero_le _
  | fold left operator h right =>
    simp only [Derivation.nesting]
    omega

/-- The comparisons among the tokens add at most `c` to a path. -/
def ComparisonsAdd (c : Nat) (ts : List Token) : Prop :=
  ∀ t ∈ ts, t.kind ∈ Token.Kind.comparisons → Node.weight t.lexeme ≤ c

theorem within_of_derivation {c : Nat} {y : Nonterminal} {ts : List Token} (d : Derivation y ts)
    (hc : ComparisonsAdd c ts) {levels : Nat} (h : d.nesting ≤ levels) :
    Within c levels y d.value := by
  induction d generalizing levels with
  | expression body ih =>
    cases levels with
    | zero =>
      simp only [Derivation.nesting] at h
      omega
    | succ levels =>
      simp only [Derivation.nesting] at h
      have hbody := ih hc (show body.nesting ≤ levels by omega)
      simp only [Within, Tier.bound, Tier.chains, Tier.compared] at hbody
      simp only [Within, reach, Derivation.value]
      omega
  | chain operands ih =>
    have := count_le_nesting operands
    have hoperands := ih hc h
    simp only [Derivation.nesting] at h
    simp only [Within, Tier.bound_chain, Derivation.value] at hoperands ⊢
    omega
  | first operand ih =>
    have hoperand := ih hc h
    simp only [Within, Derivation.value] at hoperand ⊢
    omega
  | fold left operator hop right ihl ihr =>
    obtain ⟨hcl, hcr⟩ := List.forall_mem_append.1 hc
    simp only [Derivation.nesting] at h
    have hleft := ihl hcl (show left.nesting ≤ levels by omega)
    have hright := ihr (List.forall_mem_cons.1 hcr).2 (show right.nesting ≤ levels by omega)
    have hweight := Node.weight_le_one operator.lexeme
    simp only [Within, Derivation.value, Node.chainDepth] at hleft hright ⊢
    omega
  | uncompared side ih =>
    have hside := ih hc h
    simp only [Within, Tier.bound, Tier.chains, Tier.compared, Derivation.value] at hside ⊢
    omega
  | compared left operator hop right ihl ihr =>
    obtain ⟨hcl, hcr⟩ := List.forall_mem_append.1 hc
    obtain ⟨hoperator, hcr⟩ := List.forall_mem_cons.1 hcr
    simp only [Derivation.nesting] at h
    have hleft := ihl hcl (show left.nesting ≤ levels by omega)
    have hright := ihr hcr (show right.nesting ≤ levels by omega)
    have hweight := hoperator hop
    simp only [Within, Tier.bound, Tier.chains, Tier.compared, Derivation.value,
      Node.chainDepth] at hleft hright ⊢
    omega
  | plain operand ih => exact ih hc h
  | prefixed operator hop operand ih => exact ih (List.forall_mem_cons.1 hc).2 h
  | literal | truth | falsehood | name => exact Nat.zero_le _
  | call callee opening closing hn ho hclose inner ih =>
    obtain ⟨-, htail⟩ := List.forall_mem_cons.1 hc
    obtain ⟨-, htail⟩ := List.forall_mem_cons.1 htail
    have hinner := ih (List.forall_mem_append.1 htail).1 h
    simp only [Within, Tier.bound, Tier.chains, Tier.compared, Derivation.value,
      Node.chainDepth] at hinner ⊢
    omega
  | group opening closing ho hclose inner ih =>
    obtain ⟨-, htail⟩ := List.forall_mem_cons.1 hc
    have hinner := ih (List.forall_mem_append.1 htail).1 h
    simp only [Within, Tier.bound, Tier.chains, Tier.compared, Derivation.value,
      Node.chainDepth_withSpan] at hinner ⊢
    omega
  | noArguments | lastArgument => exact Nat.zero_le _
  | someArguments head further ihh ihf =>
    obtain ⟨hch, hcf⟩ := List.forall_mem_append.1 hc
    simp only [Derivation.nesting] at h
    have hhead := ihh hch (show head.nesting ≤ levels by omega)
    have hfurther := ihf hcf (show further.nesting ≤ levels by omega)
    simp only [Within, Derivation.value, Node.chainDepth.depths] at hhead hfurther ⊢
    omega
  | nextArgument comma hcomma head further ihh ihf =>
    obtain ⟨-, htail⟩ := List.forall_mem_cons.1 hc
    obtain ⟨hch, hcf⟩ := List.forall_mem_append.1 htail
    simp only [Derivation.nesting] at h
    have hhead := ihh hch (show head.nesting ≤ levels by omega)
    have hfurther := ihf hcf (show further.nesting ≤ levels by omega)
    simp only [Within, Derivation.value, Node.chainDepth.depths] at hhead hfurther ⊢
    omega

/-! ## Statements -/

section Statements

variable {c levels : Nat} {s s' : TokenStream} {n : Node} (hc : ComparisonsAdd c s.ahead)
include hc

theorem expression_within (hr : expression levels s = .ok n s') :
    n.chainDepth < reach c levels := by
  obtain ⟨ts, d, rfl, rfl, hd⟩ := expression_sound levels hr
  exact within_of_derivation d (fun t ht => hc t (List.mem_append_left _ ht)) hd

omit hc in
theorem clause_within {ts : List Token} (d : Clause ts) (hc : ComparisonsAdd c ts)
    (hd : d.nesting ≤ levels) : d.value.chainDepth < reach c levels := by
  cases d with
  | expression d => exact within_of_derivation d hc hd
  | declaration word name equal hword hname hequal d =>
    have hinitializer : d.value.chainDepth < reach c levels :=
      within_of_derivation d (fun t ht => hc t (by simp [ht])) hd
    simpa [Clause.value, Node.chainDepth] using hinitializer

theorem statement_within (hr : statement levels s = .ok n s') :
    n.chainDepth < reach c levels := by
  obtain ⟨ts, d, hd, hvalue, stop, -, rfl⟩ := statement_sound hr
  have hdepth := clause_within d (fun t ht => hc t (by simp [ht])) hd
  obtain rfl | ⟨span, rfl⟩ := hvalue
  · exact hdepth
  · rwa [Node.chainDepth_withSpan]

end Statements

/-! ## Programs -/

theorem statements_within {c levels count : Nat} {s : TokenStream}
    (hc : ComparisonsAdd c s.ahead) :
    Node.chainDepth.depths 0 (statements levels count s).nodes ≤ reach c levels - 1 := by
  apply Node.depths_le
  intro n hn
  obtain ⟨u, rest, hu, hread⟩ := statements_readIn.1 n hn
  have := statement_within (fun t ht => hc t (hu.subset ht)) hread
  omega

theorem ofResult_ok {r : EStateM.Result Fault TokenStream Node} {n : Node}
    (h : (Attempt.ofResult r).outcome = .ok (some n)) : ∃ s', r = .ok n s' := by
  cases r with
  | ok m rest =>
    cases h
    exact ⟨rest, rfl⟩
  | error fault rest => cases h

theorem orNothing_ok {r : EStateM.Result Fault TokenStream Node} {n : Node}
    (h : (Attempt.orNothing r).outcome = .ok (some n)) : ∃ s', r = .ok n s' := by
  cases r with
  | ok m rest =>
    cases h
    exact ⟨rest, rfl⟩
  | error fault rest => cases h

theorem ofStatements_ok {last : Token} {read : Statements} {n : Node}
    (h : (Attempt.ofStatements last read).outcome = .ok (some n)) :
    n = .program read.nodes (wholeSpan last) := by
  unfold Attempt.ofStatements at h
  split at h
  · cases h
  · cases h
    rfl

/-- The paths of any tree that is read from a stream. -/
theorem read_within {c levels : Nat} {goal : Goal} {s : TokenStream} {n : Node}
    (hc : ComparisonsAdd c s.ahead) (h : (goal.read levels s).outcome = .ok (some n)) :
    n.chainDepth ≤ reach c levels - 1 := by
  cases goal with
  | statement =>
    obtain ⟨s', hr⟩ := ofResult_ok h
    exact Nat.le_sub_one_of_lt (statement_within hc hr)
  | expression =>
    obtain ⟨s', hr⟩ := ofResult_ok h
    exact Nat.le_sub_one_of_lt (expression_within hc hr)
  | rule =>
    obtain ⟨s', hr⟩ := orNothing_ok h
    unfold rule at hr
    rw [bind_eq_ok] at hr
    obtain ⟨tree, t, htree, hr⟩ := hr
    rw [bind_eq_ok] at hr
    obtain ⟨found, u, -, hr⟩ := hr
    rw [bind_eq_ok] at hr
    obtain ⟨last, w, -, hr⟩ := hr
    obtain ⟨rfl, rfl⟩ := pure_eq_ok.1 hr
    exact Nat.le_sub_one_of_lt (expression_within hc htree)
  | program =>
    obtain rfl := ofStatements_ok h
    exact statements_within hc

/-- From tokens of any origin. -/
theorem chainDepth_of_tokens {levels : Nat} {goal : Goal} {s : TokenStream} {n : Node}
    (h : (goal.read levels s).outcome = .ok (some n)) : n.chainDepth ≤ 2 * levels ^ 2 - 1 := by
  have hc : ComparisonsAdd 1 s.ahead := fun t _ _ => Node.weight_le_one t.lexeme
  have hread := read_within hc h
  have hreach := reach_eq 1 levels
  have hsquare : (2 * levels + 1) * levels = 2 * levels ^ 2 + levels := by ring
  omega

/-- In a source text every comparison is spelled as one. -/
theorem comparisonsAdd_lex (source file : String) :
    ComparisonsAdd 0 (lex source file).stream.ahead := by
  intro t ht hk
  have hall : ∀ k ∈ Token.Kind.comparisons, k ∈ Token.Kind.spellings.map Prod.snd := by decide
  have hspelled : ∀ p ∈ Token.Kind.spellings, p.2 ∈ Token.Kind.comparisons →
      Node.weight p.1 = 0 := by decide
  exact Nat.le_of_eq (hspelled _ (mem_spellings (wellMade_of_mem_lex ht) (hall _ hk)) hk)

/-- From the tokens of a source text. -/
theorem chainDepth_of_source {levels : Nat} {goal : Goal} {source file : String} {n : Node}
    (h : (goal.read levels (lex source file).stream).outcome = .ok (some n)) :
    n.chainDepth ≤ (2 * levels + 1) * (levels - 1) := by
  have hread := read_within (comparisonsAdd_lex source file) h
  have hreach := reach_eq 0 levels
  cases levels with
  | zero => exact hread
  | succ levels =>
    have hproduct : (2 * (levels + 1) + 0) * (levels + 1) =
        (2 * (levels + 1) + 1) * levels + (levels + 1) + 1 := by ring
    rw [Nat.add_sub_cancel]
    omega

end Grammar

end RuleLang
