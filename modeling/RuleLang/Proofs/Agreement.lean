import RuleLang.Proofs.Grammar.Statements
import RuleLang.Proofs.Token.Flaws

/-!
Two ways to read an expression. A source text is read as an expression exactly if it is read as a
program of one expression statement with nothing to report, and it is the same expression; otherwise
something is reported (`parseExpression_iff`). Reading may stop without a report at an invalid
token, but then there is one about that token already.
-/
namespace RuleLang

open Grammar

section Silence

variable {o : Options} {ts : List Token} (hvalid : ∀ t ∈ ts, t.kind ≠ .invalid)
include hvalid

/-- Among valid tokens, there is something to report about every fault. -/
theorem exists_diagnostic {f : Fault} (h : f.IsAmong ts) (limit : Number) :
    ∃ d, f.diagnostic? limit = some d := by
  cases f with
  | unexpected e t =>
    rw [Fault.diagnostic?, if_neg (hvalid t h)]
    exact ⟨_, rfl⟩
  | tooDeep t => exact ⟨_, rfl⟩
  | unmeasured e t => exact h.elim

theorem diagnose_eq_nil_iff {faults : List Fault} (h : ∀ f ∈ faults, f.IsAmong ts) :
    o.diagnose faults = [] ↔ faults = [] := by
  constructor
  · intro hnone
    refine List.eq_nil_iff_forall_not_mem.2 fun f hf => ?_
    obtain ⟨d, hd⟩ := exists_diagnostic hvalid (h f hf) o.maxDepth
    rw [Options.diagnose, List.filterMap_eq_nil_iff] at hnone
    exact absurd (hd.symm.trans (hnone f hf)) (Option.some_ne_none d)
  · rintro rfl
    rfl

end Silence

/-- A source text without diagnostics has no invalid tokens. -/
theorem valid_of_lex {source file : String} (h : (lex source file).diagnostics = []) :
    ∀ t ∈ (lex source file).stream.toList, t.kind ≠ .invalid := by
  intro t ht hinvalid
  obtain ht | ht := List.mem_append.1 ht
  · obtain ⟨d, -, hd⟩ := exists_diagnostic_of_invalid ht hinvalid
    rw [h] at hd
    cases hd
  · rw [List.mem_singleton.1 ht] at hinvalid
    cases hinvalid

section Agreement

variable (source : String) (file : Option String) (o : Options)

/-- Nothing is reported about a program exactly if nothing is wrong with its words and
statements. -/
theorem diagnostics_parse_eq_nil_iff :
    (parse source file o).diagnostics = [] ↔
      (lex source (o.fileFor file)).diagnostics = [] ∧
        (allStatements o.levels (lex source (o.fileFor file)).stream).faults = [] := by
  rw [Parsed.diagnostics, List.append_eq_nil_iff]
  refine and_congr_right fun hlexical => ?_
  exact diagnose_eq_nil_iff (valid_of_lex hlexical) fun f hf =>
    allStatements_isAmong o endsOnce_lex (fun _ => measured_of_mem_lex) hf

variable {source file o} in
theorem parseExpression_of_ok {e : Node} {s' : TokenStream}
    (h : rule o.levels (lex source (o.fileFor file)).stream = .ok e s') :
    parseExpression source file o =
      (if (lex source (o.fileFor file)).diagnostics = [] then some e else none,
        (lex source (o.fileFor file)).diagnostics) := by
  simp only [parseExpression, h, List.isEmpty_iff]

variable {source file o} in
theorem parseExpression_of_error {f : Fault} {s' : TokenStream}
    (h : rule o.levels (lex source (o.fileFor file)).stream = .error f s') :
    parseExpression source file o =
      (none, (lex source (o.fileFor file)).diagnostics ++ o.diagnose [f]) := by
  simp only [parseExpression, h]

/-- An expression is given if one is read and nothing is wrong with the words. -/
theorem parseExpression_eq_some_iff (e : Node) :
    (parseExpression source file o).1 = some e ↔
      (lex source (o.fileFor file)).diagnostics = [] ∧
        ∃ s', rule o.levels (lex source (o.fileFor file)).stream = .ok e s' := by
  cases hread : rule o.levels (lex source (o.fileFor file)).stream with
  | error fault rest => simp [parseExpression_of_error hread]
  | ok expression rest => simp [parseExpression_of_ok hread]

/-- What is read as an expression has nothing to report, and all else has. -/
theorem diagnostics_parseExpression_eq_nil_iff :
    (parseExpression source file o).2 = [] ↔ (parseExpression source file o).1.isSome = true := by
  cases hread : rule o.levels (lex source (o.fileFor file)).stream with
  | ok expression rest => simp [parseExpression_of_ok hread]
  | error fault rest =>
    rw [parseExpression_of_error hread]
    refine iff_of_false (fun hnone => ?_) nofun
    obtain ⟨hlexical, hfault⟩ := List.append_eq_nil_iff.1 hnone
    have hamong : ∀ f ∈ [fault], f.IsAmong (lex source (o.fileFor file)).stream.toList :=
      List.forall_mem_singleton.2 (rule_isAmong hread)
    exact List.cons_ne_nil _ _ ((diagnose_eq_nil_iff (valid_of_lex hlexical) hamong).1 hfault)

end Agreement

end RuleLang
