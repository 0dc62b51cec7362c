import RuleLang.Proofs.Grammar.Acceptance
import RuleLang.Proofs.Grammar.Recovery

/-!
Statements by the grammar.

    Statement := ( "var" Identifier "=" Expression | Expression ) ";"

Without its terminator a statement is a clause. What is read as a statement has the tokens and the
tree of a clause, with a semicolon behind it or the end of the source (`statement_sound`), and at
the end of a source every clause is read (`Clause.read_atEnd`).
-/
namespace RuleLang.Grammar

open Reader

/-- A way to form a list of tokens as a statement without its terminator. -/
inductive Clause : List Token → Type where
  | expression {ts : List Token} (d : Derivation .expression ts) : Clause ts
  | declaration {ts : List Token} (word name equal : Token) (hword : word.kind = .var)
      (hname : name.kind = .ident) (hequal : equal.kind = .equal)
      (d : Derivation .expression ts) : Clause (word :: name :: equal :: ts)

namespace Clause

/-- The tree of a clause. -/
def value : {ts : List Token} → Clause ts → Node
  | _, expression d => .expressionStatement d.value d.value.span
  | _, declaration word name _ _ _ _ d =>
    .variableDeclaration (.identifier name.lexeme name.span) d.value (word.span.merge d.value.span)

/-- The levels of nesting of the expression in a clause. -/
def nesting : {ts : List Token} → Clause ts → Nat
  | _, expression d => d.nesting
  | _, declaration _ _ _ _ _ _ d => d.nesting

end Clause

/-! ## Tokens -/

/-- Neither semicolons nor end marks are part of a phrase. -/
theorem inner_of_derivation {y : Nonterminal} {ts : List Token} (d : Derivation y ts) :
    ∀ t ∈ ts, t.kind ≠ .semicolon ∧ t.kind ≠ .eof := by
  have hoperators : ∀ c : Chain, ∀ k ∈ c.operators, k ≠ .semicolon ∧ k ≠ .eof := by
    intro c
    cases c <;> decide
  have hcomparisons : ∀ k ∈ Token.Kind.comparisons, k ≠ .semicolon ∧ k ≠ .eof := by decide
  have hsigns : ∀ k ∈ [Token.Kind.minus, .bang], k ≠ .semicolon ∧ k ≠ .eof := by decide
  have hof {t : Token} {k : Token.Kind} (h : t.kind = k) (hk : k ≠ .semicolon ∧ k ≠ .eof) :
      t.kind ≠ .semicolon ∧ t.kind ≠ .eof := h ▸ hk
  induction d with
  | expression _ ih | chain _ ih | first _ ih | uncompared _ ih | plain _ ih => exact ih
  | fold left operator hop right ihl ihr =>
    exact List.forall_mem_append.2
      ⟨ihl, List.forall_mem_cons.2 ⟨hoperators _ _ hop, ihr⟩⟩
  | compared left operator hop right ihl ihr =>
    exact List.forall_mem_append.2 ⟨ihl, List.forall_mem_cons.2 ⟨hcomparisons _ hop, ihr⟩⟩
  | prefixed operator hop operand ih => exact List.forall_mem_cons.2 ⟨hsigns _ hop, ih⟩
  | literal t ht =>
    refine List.forall_mem_singleton.2 ?_
    rcases ht with ht | ht <;> exact hof ht (by decide)
  | truth t ht | falsehood t ht | name t ht =>
    exact List.forall_mem_singleton.2 (hof ht (by decide))
  | call callee opening closing hn ho hc inner ih =>
    exact List.forall_mem_cons.2 ⟨hof hn (by decide), List.forall_mem_cons.2
      ⟨hof ho (by decide), List.forall_mem_append.2
        ⟨ih, List.forall_mem_singleton.2 (hof hc (by decide))⟩⟩⟩
  | group opening closing ho hc inner ih =>
    exact List.forall_mem_cons.2 ⟨hof ho (by decide), List.forall_mem_append.2
      ⟨ih, List.forall_mem_singleton.2 (hof hc (by decide))⟩⟩
  | noArguments | lastArgument => exact List.forall_mem_nil _
  | someArguments head further ihh ihf => exact List.forall_mem_append.2 ⟨ihh, ihf⟩
  | nextArgument comma hcomma head further ihh ihf =>
    exact List.forall_mem_cons.2 ⟨hof hcomma (by decide), List.forall_mem_append.2 ⟨ihh, ihf⟩⟩

theorem Clause.inner {ts : List Token} (c : Clause ts) :
    ∀ t ∈ ts, t.kind ≠ .semicolon ∧ t.kind ≠ .eof := by
  cases c with
  | expression d => exact inner_of_derivation d
  | declaration word name equal hword hname hequal d =>
    exact List.forall_mem_cons.2 ⟨by simp [hword], List.forall_mem_cons.2 ⟨by simp [hname],
      List.forall_mem_cons.2 ⟨by simp [hequal], inner_of_derivation d⟩⟩⟩

theorem Clause.ne_nil {ts : List Token} (c : Clause ts) : ts ≠ [] := by
  cases c with
  | expression d => simpa using ne_nil_of_expression d []
  | declaration => exact List.cons_ne_nil _ _

theorem Clause.ne_eof {ts : List Token} (c : Clause ts) : ∀ t ∈ ts, t.kind ≠ .eof :=
  fun t ht => (c.inner t ht).2

/-! ## What is read -/

section Reading

variable (levels : Nat) {s s' : TokenStream}

theorem statement_of_var (hs : s.current.kind = .var) :
    statement levels s =
      (declaration levels >>= fun m =>
        terminator .semicolonAfterDeclaration >>= terminated m) s := by
  unfold statement
  rw [bind_of_ok (current_apply s), if_pos hs]

theorem statement_of_ne_var (hs : s.current.kind ≠ .var) :
    statement levels s =
      (expression levels >>= fun e =>
        terminator .semicolonAfterExpression >>= terminated (.expressionStatement e e.span)) s := by
  unfold statement
  rw [bind_of_ok (current_apply s), if_neg hs]

theorem declaration_prepend {word name equal : Token} (hword : word.kind = .var)
    (hname : name.kind = .ident) (hequal : equal.kind = .equal) (s : TokenStream) :
    declaration levels (s.prepend [word, name, equal]) =
      (expression levels >>= fun initializer =>
        pure (Node.variableDeclaration (.identifier name.lexeme name.span) initializer
          (word.span.merge initializer.span))) s := by
  unfold declaration
  rw [bind_of_ok (advance_apply_prepend_cons (by simp [hword]) _ s),
    bind_of_ok (expect_prepend_cons hname (by decide) _ _ s),
    bind_of_ok (expect_prepend_cons hequal (by decide) _ _ s)]
  rfl

variable {levels}

/-- A declaration that is read is a clause. -/
theorem declaration_sound {n : Node} (hs : s.current.kind = .var)
    (h : declaration levels s = .ok n s') :
    ∃ ts, ∃ c : Clause ts, s = s'.prepend ts ∧ c.value = n ∧ c.nesting ≤ levels := by
  unfold declaration at h
  rw [bind_eq_ok] at h
  obtain ⟨word, u, hword, h⟩ := h
  obtain ⟨rfl, hsu⟩ := advance_ok hword (by simp [hs])
  rw [bind_eq_ok] at h
  obtain ⟨name, v, hname, h⟩ := h
  obtain ⟨hident, rfl⟩ := expect_ok hname (by decide)
  rw [bind_eq_ok] at h
  obtain ⟨equal, w, hequal, h⟩ := h
  obtain ⟨hsign, rfl⟩ := expect_ok hequal (by decide)
  rw [bind_eq_ok] at h
  obtain ⟨initializer, x, hinitializer, h⟩ := h
  obtain ⟨ts, d, rfl, rfl, hd⟩ := expression_sound levels hinitializer
  obtain ⟨rfl, rfl⟩ := pure_eq_ok.1 h
  exact ⟨_, .declaration s.current name equal hs hident hsign d,
    hsu.trans (by simp [TokenStream.prepend]), rfl, hd⟩

/-- A statement that is read is a clause, with a semicolon behind it or the end of the source. -/
theorem statement_terminated {n : Node} (h : statement levels s = .ok n s') :
    ∃ ts, ∃ c : Clause ts, c.nesting ≤ levels ∧ ∃ stop : Option Token,
      s = s'.prepend (ts ++ stop.toList) ∧ (∀ t ∈ stop, t.kind = .semicolon) ∧
      (stop = none → s'.current.kind = .eof) ∧ terminated c.value stop s' = .ok n s' := by
  have hphrase : ∃ m u e, (terminator e >>= terminated m) u = .ok n s' ∧
      ∃ ts, ∃ c : Clause ts, s = u.prepend ts ∧ c.value = m ∧ c.nesting ≤ levels := by
    by_cases hvar : s.current.kind = .var
    · rw [statement_of_var levels hvar, bind_eq_ok] at h
      obtain ⟨m, u, hm, h⟩ := h
      exact ⟨m, u, _, h, declaration_sound hvar hm⟩
    · rw [statement_of_ne_var levels hvar, bind_eq_ok] at h
      obtain ⟨e, u, he, h⟩ := h
      obtain ⟨ts, d, hs, rfl, hd⟩ := expression_sound levels he
      exact ⟨_, u, _, h, ts, .expression d, hs, rfl, hd⟩
  obtain ⟨m, u, e, hrest, ts, c, rfl, rfl, hc⟩ := hphrase
  rw [bind_eq_ok] at hrest
  obtain ⟨found, v, hfound, hrest⟩ := hrest
  obtain ⟨rfl, -⟩ := terminated_ok hrest
  obtain ⟨rfl, rfl, heof⟩ | ⟨t, rfl, ht, rfl⟩ := terminator_ok hfound
  · refine ⟨ts, c, hc, none, ?_, fun _ hu => absurd hu (Option.not_mem_none _), fun _ => heof,
      hrest⟩
    rw [Option.toList_none, List.append_nil]
  · refine ⟨ts, c, hc, some t, ?_, fun u hu => Option.mem_some.1 hu ▸ ht, nofun, hrest⟩
    rw [Option.toList_some, TokenStream.prepend_append]

/-- Its terminator at most widens the place of a statement. -/
theorem statement_sound {n : Node} (h : statement levels s = .ok n s') :
    ∃ ts, ∃ c : Clause ts, c.nesting ≤ levels ∧ (n = c.value ∨ ∃ span, n = c.value.withSpan span) ∧
      ∃ stop : Option Token, (∀ t ∈ stop, t.kind = .semicolon) ∧
        s = s'.prepend (ts ++ stop.toList) := by
  obtain ⟨ts, c, hc, stop, hs, hstop, -, hvalue⟩ := statement_terminated h
  exact ⟨ts, c, hc, (terminated_ok hvalue).2, stop, hstop, hs⟩

/-- A clause is read in front of its terminator. -/
theorem Clause.read_prepend {ts : List Token} (c : Clause ts) (hc : c.nesting ≤ levels)
    (hs : s.current.kind = .semicolon ∨ s.current.kind = .eof) :
    ∃ e, statement levels (s.prepend ts) = (terminator e >>= terminated c.value) s := by
  have hstops : Stops .expression s.current.kind := stops_of_end hs
  cases c with
  | expression d =>
    refine ⟨.semicolonAfterExpression, ?_⟩
    rw [statement_of_ne_var levels (current_ne d _ (by decide)),
      bind_of_ok (reads_of_derivation d hc hstops)]
    rfl
  | @declaration ts word name equal hword hname hequal d =>
    have hvar : (s.prepend (word :: name :: equal :: ts)).current.kind = .var := hword
    have hsplit : s.prepend (word :: name :: equal :: ts) =
        (s.prepend ts).prepend [word, name, equal] := rfl
    have hread : Grammar.declaration levels (s.prepend (word :: name :: equal :: ts)) =
        .ok (Clause.declaration word name equal hword hname hequal d).value s := by
      rw [hsplit, declaration_prepend levels hword hname hequal,
        bind_of_ok (reads_of_derivation d hc hstops)]
      rfl
    exact ⟨.semicolonAfterDeclaration,
      (statement_of_var levels hvar).trans (bind_of_ok hread)⟩

/-- At the end of its source, a clause needs no terminator. -/
theorem Clause.read_atEnd {ts : List Token} (c : Clause ts) (hc : c.nesting ≤ levels)
    (s : TokenStream) : statement levels (s.atEnd.prepend ts) = .ok c.value s.atEnd := by
  have hend : s.atEnd.current.kind = .eof := s.last_eof
  obtain ⟨e, hread⟩ := c.read_prepend hc (.inr hend)
  rw [hread, bind_of_ok (terminator_eof hend _), advance_eq_self hend]
  rfl

end Reading

end RuleLang.Grammar
