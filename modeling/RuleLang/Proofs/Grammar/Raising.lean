import RuleLang.Proofs.Grammar.Leftover
import RuleLang.Proofs.Grammar.Limits
import RuleLang.Proofs.Reports

/-!
A greater limit on nesting. Under it the statements of a source are read as before, up to the one
that ended reading under the smaller limit, if there was any (`statements_limited`). So a program
that is read without such an end stays the same, and any other one only grows (`program_raised`).
-/
namespace RuleLang

/-- The diagnostic says that a token is nested too deep for the limit. -/
def Options.ReportsNesting (o : Options) (d : Diagnostic) : Prop := ∃ t, d = o.tooDeepAt t

namespace Grammar

/-! ## Statements -/

/-- What is read up to a token that is nested too deep, of all that would be read otherwise. -/
structure CutShort (read whole : Statements) : Prop where
  faults : ∃ front t, read.faults = front ++ [.tooDeep t] ∧ front <+: whole.faults
  nodes : read.nodes <+: whole.nodes

/-- With more levels left the same statements are read, at least up to one that was nested too
deep. -/
theorem statements_limited {levels levels' : Nat} (hle : levels ≤ levels') (count : Nat)
    (s : TokenStream) :
    statements levels count s = statements levels' count s ∨
      CutShort (statements levels count s) (statements levels' count s) := by
  induction count generalizing s with
  | zero => exact .inl rfl
  | succ count ih =>
    unfold statements
    split
    · exact .inl rfl
    · obtain hsame | ⟨t, rest, hdeep⟩ := statement_limited hle s
      · rw [hsame]
        cases statement levels' s with
        | ok node rest =>
          obtain heq | ⟨⟨front, t, hfaults, hfront⟩, hnodes⟩ := ih rest
          · exact .inl (by simp only [heq])
          · exact .inr ⟨⟨front, t, hfaults, hfront⟩, List.cons_prefix_cons.2 ⟨rfl, hnodes⟩⟩
        | error fault rest =>
          dsimp only
          cases fault.isRecoverable with
          | false => exact .inl rfl
          | true =>
            obtain heq | ⟨⟨front, t, hfaults, hfront⟩, hnodes⟩ := ih rest.synchronize
            · exact .inl (by simp only [heq])
            · refine .inr ⟨⟨fault :: front, t, ?_, List.cons_prefix_cons.2 ⟨rfl, hfront⟩⟩, hnodes⟩
              exact congrArg (fault :: ·) hfaults
      · rw [hdeep]
        exact .inr ⟨⟨[], t, rfl, List.nil_prefix⟩, List.nil_prefix⟩

/-- Only the last fault may end reading. -/
theorem isRecoverable_of_mem_dropLast {levels count : Nat} {s : TokenStream} {f : Fault}
    (h : f ∈ (statements levels count s).faults.dropLast) : f.isRecoverable = true := by
  induction count generalizing s with
  | zero => cases h
  | succ count ih =>
    unfold statements at h
    split at h
    · cases h
    · cases hr : statement levels s with
      | ok node rest =>
        rw [hr] at h
        exact ih h
      | error fault rest =>
        rw [hr] at h
        dsimp only at h
        cases hgo : fault.isRecoverable with
        | false =>
          simp only [hgo] at h
          cases h
        | true =>
          simp only [hgo, if_true] at h
          by_cases hnone : (statements levels count rest.synchronize).faults = []
          · rw [hnone] at h
            cases h
          · rw [List.dropLast_cons_of_ne_nil hnone] at h
            obtain rfl | h := List.mem_cons.1 h
            · exact hgo
            · exact ih h

/-! ## Diagnostics -/

/-- What is said about a token that does not fit does not depend on the limit. -/
theorem diagnostic?_limit {f : Fault} (h : f.isTooDeep = false) (limit limit' : Number) :
    f.diagnostic? limit = f.diagnostic? limit' := by
  cases f with
  | unexpected e t => rfl
  | tooDeep t => cases h
  | unmeasured e t => rfl

theorem diagnose_limit {faults : List Fault} (h : ∀ f ∈ faults, f.isTooDeep = false)
    (o o' : Options) : o.diagnose faults = o'.diagnose faults :=
  List.filterMap_congr fun f hf => diagnostic?_limit (h f hf) o.maxDepth o'.maxDepth

/-- A diagnostic on nesting is that of a token which is nested too deep. -/
theorem isTooDeep_of_reportsNesting {o : Options} {f : Fault} {d : Diagnostic}
    (hd : f.diagnostic? o.maxDepth = some d) (h : o.ReportsNesting d) : f.isTooDeep = true := by
  obtain ⟨t, rfl⟩ := h
  cases f with
  | tooDeep u => rfl
  | unmeasured e u => cases hd
  | unexpected e u =>
    have hproductions : ∀ e : SyntaxError, e.production ≠ "Expression" := by
      intro e
      cases e <;> decide
    by_cases hu : u.kind = .invalid
    · simp [Fault.diagnostic?, hu] at hd
    · simp only [Fault.diagnostic?, hu, if_false, Option.some.injEq] at hd
      have hproduction := congrArg Diagnostic.production hd
      exact absurd (Option.some.inj hproduction) (hproductions e)

/-- Nothing is said about nesting unless a token is nested too deep. -/
theorem reportsNesting_iff (o : Options) (faults : List Fault) :
    (∃ d ∈ o.diagnose faults, o.ReportsNesting d) ↔ ∃ f ∈ faults, f.isTooDeep = true := by
  constructor
  · rintro ⟨d, hmem, hd⟩
    obtain ⟨f, hf, hdiagnostic⟩ := List.mem_filterMap.1 hmem
    exact ⟨f, hf, isTooDeep_of_reportsNesting hdiagnostic hd⟩
  · rintro ⟨f, hf, hdeep⟩
    cases f with
    | tooDeep t => exact ⟨_, List.mem_filterMap.2 ⟨_, hf, rfl⟩, t, rfl⟩
    | unexpected e t => cases hdeep
    | unmeasured e t => cases hdeep

theorem isTooDeep_of_isRecoverable {f : Fault} (h : f.isRecoverable = true) :
    f.isTooDeep = false := by
  cases f with
  | unexpected e t => rfl
  | tooDeep t => cases h
  | unmeasured e t => rfl

/-- A token that is nested too deep is the last thing to be reported. -/
theorem faults_of_isTooDeep {levels count : Nat} {s : TokenStream} {f : Fault}
    (h : f ∈ (statements levels count s).faults) (hdeep : f.isTooDeep = true) :
    ∃ front t, (statements levels count s).faults = front ++ [.tooDeep t] ∧
      ∀ g ∈ front, g.isTooDeep = false := by
  have hne := List.ne_nil_of_mem h
  have hsplit := List.dropLast_concat_getLast hne
  have hfront : ∀ g ∈ (statements levels count s).faults.dropLast, g.isTooDeep = false :=
    fun g hg => isTooDeep_of_isRecoverable (isRecoverable_of_mem_dropLast hg)
  rw [← hsplit] at h
  obtain h | h := List.mem_append.1 h
  · rw [hfront f h] at hdeep
    cases hdeep
  · rw [List.mem_singleton.1 h] at hdeep
    generalize List.getLast _ hne = last at hsplit hdeep
    cases last with
    | tooDeep t => exact ⟨_, t, hsplit.symm, hfront⟩
    | unexpected e t => cases hdeep
    | unmeasured e t => cases hdeep

/-! ## Programs -/

theorem faults_ofStatements (last : Token) (read : Statements) :
    (Attempt.ofStatements last read).faults = read.faults := by
  unfold Attempt.ofStatements
  split <;> rfl

/-- A program comes of the statements unless a token without a length ended reading. -/
theorem outcome_ofStatements (last : Token) (read : Statements) :
    (Attempt.ofStatements last read).outcome = .ok (some (.program read.nodes (wholeSpan last))) ∨
      ∃ e t, read.faults.getLast? = some (.unmeasured e t) ∧
        (Attempt.ofStatements last read).outcome = .error (.unmeasured e t) := by
  unfold Attempt.ofStatements
  split
  · rename_i e t h
    exact .inr ⟨e, t, h, rfl⟩
  · exact .inl rfl

/-- The tokens of `); x; a or b;`. -/
def misplacedBefore : TokenStream :=
  disjoined.prepend [bareToken .rparen ")", bareToken .semicolon ";", bareToken .ident "x",
    bareToken .semicolon ";"]

end Grammar

end RuleLang
