import RuleLang.Grammar.Statement
import RuleLang.Proofs.Grammar.Levels

/-!
Raising the limit on nesting. With more levels left a reader does what it does with fewer, unless
that ends at a token which is nested too deep (`expression_limited`, `statement_limited`).
-/
namespace RuleLang.Grammar

open Reader

/-- The first reader does what the second one does, or stops at a token that is nested too deep. -/
def Limited {α : Type} (r r' : Reader α) : Prop :=
  ∀ s, r s = r' s ∨ ∃ t s', r s = .error (.tooDeep t) s'

namespace Limited

variable {α β : Type}

theorem refl (r : Reader α) : Limited r r := fun _ => .inl rfl

theorem tooDeep (t : Token) (r : Reader α) : Limited (throw (.tooDeep t)) r :=
  fun s => .inr ⟨t, s, rfl⟩

theorem bind {r r' : Reader α} {f f' : α → Reader β} (h : Limited r r')
    (hf : ∀ a, Limited (f a) (f' a)) : Limited (r >>= f) (r' >>= f') := by
  intro s
  rcases h s with h | ⟨t, s', h⟩
  · cases hr : r' s with
    | ok a s' =>
      rw [bind_of_ok (h.trans hr), bind_of_ok hr]
      exact hf a s'
    | error e s' =>
      rw [bind_of_error (h.trans hr), bind_of_error hr]
      exact .inl rfl
  · exact .inr ⟨t, s', bind_of_error h⟩

end Limited

section Tiers

variable {nested : Nat → Reader Node} {levels levels' : Nat}

theorem chainFrom_limited {operand : Nat → Reader Node} (kinds : List Token.Kind)
    (h : ∀ l l', l ≤ l' → l' ≤ levels' → Limited (operand l) (operand l'))
    (hle : levels ≤ levels') (left : Node) :
    Limited (chainFrom operand kinds levels left) (chainFrom operand kinds levels' left) := by
  induction levels generalizing levels' left with
  | zero =>
    unfold chainFrom
    apply (Limited.refl _).bind
    intro found
    cases found with
    | none => exact .refl _
    | some operator => exact .tooDeep operator _
  | succ levels ih =>
    obtain ⟨levels', rfl⟩ : ∃ l, levels' = l + 1 := ⟨levels' - 1, by omega⟩
    unfold chainFrom
    apply (Limited.refl _).bind
    intro found
    cases found with
    | none => exact .refl _
    | some operator =>
      apply (h levels levels' (by omega) (by omega)).bind
      intro right
      exact ih (fun l l' hl hl' => h l l' hl (by omega)) (by omega) _

theorem chain_limited {operand : Nat → Reader Node} (kinds : List Token.Kind)
    (h : ∀ l l', l ≤ l' → l' ≤ levels' → Limited (operand l) (operand l'))
    (hle : levels ≤ levels') :
    Limited (chain operand kinds levels) (chain operand kinds levels') :=
  (h levels levels' hle (Nat.le_refl _)).bind (chainFrom_limited kinds h hle)

theorem moreArguments_limited (h : Limited (nested levels) (nested levels')) (count : Nat) :
    Limited (moreArguments nested levels count) (moreArguments nested levels' count) := by
  induction count with
  | zero => exact .refl _
  | succ count ih =>
    unfold moreArguments
    apply (Limited.refl _).bind
    intro found
    cases found with
    | none => exact .refl _
    | some comma => exact h.bind fun argument => ih.bind fun _ => .refl _

theorem arguments_limited (h : Limited (nested levels) (nested levels')) :
    Limited (arguments nested levels) (arguments nested levels') := by
  unfold arguments
  apply (Limited.refl _).bind
  intro t
  split
  · exact .refl _
  · refine h.bind fun argument => (Limited.refl _).bind fun count => ?_
    exact (moreArguments_limited h count).bind fun _ => .refl _

theorem primary_limited (h : Limited (nested levels) (nested levels')) :
    Limited (primary nested levels) (primary nested levels') := by
  unfold primary call
  apply (Limited.refl _).bind
  intro t
  split
  case h_5 =>
    refine (Limited.refl _).bind fun _ => (Limited.refl _).bind fun next => ?_
    split
    · apply (Limited.refl _).bind
      intro _
      exact (arguments_limited h).bind fun _ => .refl _
    · exact .refl _
  case h_6 =>
    apply (Limited.refl _).bind
    intro _
    exact h.bind fun _ => .refl _
  all_goals exact .refl _

theorem unary_limited (h : Limited (nested levels) (nested levels')) :
    Limited (unary nested levels) (unary nested levels') := by
  unfold unary
  apply (Limited.refl _).bind
  intro found
  cases found with
  | none => exact primary_limited h
  | some operator => exact (primary_limited h).bind fun _ => .refl _

section Nested

variable (h : ∀ l l', l ≤ l' → l' ≤ levels' → Limited (nested l) (nested l'))
include h

theorem additive_limited (hle : levels ≤ levels') :
    Limited (additive nested levels) (additive nested levels') :=
  chain_limited _ (fun _ _ hk hk' => chain_limited _
    (fun l l' hl hl' => unary_limited (h l l' hl (by omega))) hk) hle

theorem comparison_limited (hle : levels ≤ levels') :
    Limited (comparison nested levels) (comparison nested levels') := by
  unfold comparison
  refine (additive_limited h hle).bind fun left => (Limited.refl _).bind fun found => ?_
  cases found with
  | none => exact .refl _
  | some operator => exact (additive_limited h hle).bind fun _ => .refl _

theorem disjunction_limited (hle : levels ≤ levels') :
    Limited (disjunction nested levels) (disjunction nested levels') :=
  chain_limited _ (fun _ k' hk hk' => chain_limited _
    (fun _ l' hl hl' => comparison_limited (fun i j hi hj => h i j hi (by omega)) hl) hk) hle

end Nested

end Tiers

/-- An expression that is not nested too deep for a limit is read in the same way under every
greater one. -/
theorem expression_limited {levels levels' : Nat} (hle : levels ≤ levels') :
    Limited (expression levels) (expression levels') := by
  induction levels' using Nat.strongRecOn generalizing levels with
  | ind levels' ih =>
    cases levels with
    | zero => exact fun s => .inr ⟨_, _, expression_zero s⟩
    | succ levels =>
      obtain ⟨levels', rfl⟩ : ∃ l, levels' = l + 1 := ⟨levels' - 1, by omega⟩
      rw [expression_succ, expression_succ]
      exact disjunction_limited (fun l l' hl hl' => ih l' (by omega) hl) (by omega)

theorem statement_limited {levels levels' : Nat} (hle : levels ≤ levels') :
    Limited (statement levels) (statement levels') := by
  unfold statement declaration
  apply (Limited.refl _).bind
  intro t
  split
  · refine Limited.bind ?_ fun _ => .refl _
    refine (Limited.refl _).bind fun _ => (Limited.refl _).bind fun _ => ?_
    apply (Limited.refl _).bind
    intro _
    exact (expression_limited hle).bind fun _ => .refl _
  · exact (expression_limited hle).bind fun _ => .refl _

end RuleLang.Grammar
