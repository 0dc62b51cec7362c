import RuleLang.Proofs.Grammar.Acceptance
import RuleLang.Proofs.Grammar.Trees
import RuleLang.Proofs.Grammar.Written

/-!
Statements and rules. An expression statement is what a rule is: an expression, with a semicolon
behind it unless the source ends there (`expressionStatement_sound`,
`expressionStatement_complete`). So a source is read as one expression statement and nothing else
exactly if it derives a rule that fits the levels (`allStatements_iff`).
-/
namespace RuleLang

/-- The semicolons of a stream have a length each. -/
def TokenStream.Measured (s : TokenStream) : Prop := ∀ t ∈ s.ahead, t.Measured

namespace Grammar

open Reader

variable {levels : Nat} {s s' : TokenStream}

/-! ## Expression statements -/

theorem RuleDerivation.ne_nil {ts : List Token} (d : RuleDerivation ts) : ts ≠ [] := by
  cases d with
  | bare expression => simpa using ne_nil_of_expression expression []
  | terminated expression t => exact ne_nil_of_expression expression [t]

/-- The tokens of an expression statement derive its expression. -/
theorem expressionStatement_sound {e : Node} {span : Span}
    (h : statement levels s = .ok (.expressionStatement e span) s') :
    ∃ ts, ∃ d : RuleDerivation ts, s = s'.prepend ts ∧ d.tree = e ∧ d.nesting ≤ levels := by
  obtain ⟨ts, c, hc, hvalue, stop, hstop, rfl⟩ := statement_sound h
  cases c with
  | declaration => obtain hvalue | ⟨_, hvalue⟩ := hvalue <;> cases hvalue
  | expression d =>
    have htree : d.value = e := by
      obtain hvalue | ⟨_, hvalue⟩ := hvalue <;> exact (Node.expressionStatement.inj hvalue).1.symm
    cases stop with
    | none => exact ⟨ts, .bare d, by simp, htree, hc⟩
    | some t => exact ⟨ts ++ [t], .terminated d t (hstop t rfl), rfl, htree, hc⟩

/-- At the end of the source, the tokens of a rule are read as an expression statement. -/
theorem expressionStatement_complete {ts : List Token} (d : RuleDerivation ts)
    (hd : d.nesting ≤ levels) (h : ∀ t ∈ ts, t.Measured) (s : TokenStream) :
    ∃ span, statement levels (s.atEnd.prepend ts) =
      .ok (.expressionStatement d.tree span) s.atEnd := by
  cases d with
  | bare expression => exact ⟨_, (Clause.expression expression).read_atEnd hd s⟩
  | @terminated ts expression t ht =>
    have hsemicolon : (s.atEnd.prepend [t]).current.kind = .semicolon := ht
    obtain ⟨e, hread⟩ := (Clause.expression expression).read_prepend hd (.inl hsemicolon)
    obtain ⟨empty, hempty⟩ := h t (by simp) ht
    rw [TokenStream.prepend_append, hread, bind_of_ok (terminator_semicolon hsemicolon _),
      TokenStream.advance_prepend_cons (by simp [ht])]
    simp only [terminated, TokenStream.current_prepend_cons, hempty]
    cases empty with
    | true => exact ⟨_, rfl⟩
    | false => exact ⟨_, rfl⟩

/-! ## Faults -/

/-- If all semicolons have a length, each fault of a source is found at one of its tokens. -/
theorem allStatements_isAmong (o : Options) (once : s.EndsOnce) (hm : s.Measured) {f : Fault}
    (h : f ∈ (allStatements o.levels s).faults) : f.IsAmong s.toList := by
  have hfaults := (statements_attempts o.levels once (Nat.le_refl _) s).2
  rw [s.prepend_ahead] at hfaults
  rw [allStatements, hfaults] at h
  obtain ⟨a, ha, hf⟩ := List.mem_flatMap.1 h
  obtain ⟨segment, hsegment, rfl⟩ := mem_attempts ha
  have hahead : segment ⊆ s.ahead := fun t ht =>
    flatten_segments s.ahead ▸ List.mem_flatten_of_mem hsegment ht
  have hplace {t : Token} (h : StandsIn s.last segment t) : t ∈ s.toList := by
    obtain ht | ⟨rfl, -⟩ := h
    · exact List.mem_append_left _ (hahead ht)
    · exact List.mem_append_right _ (List.mem_singleton.2 rfl)
  cases settled_of_mem_segments o s once hsegment with
  | statement node outcome faults => simp [faults] at hf
  | unexpected e t outcome faults place =>
    rw [faults, List.mem_singleton] at hf
    exact hf ▸ hplace place
  | tooDeep t outcome faults place =>
    rw [faults, List.mem_singleton] at hf
    exact hf ▸ hplace place
  | unmeasured e t outcome faults place kind length =>
    obtain ⟨empty, hempty⟩ := hm t (hahead place) kind
    rw [hempty] at length
    cases length

/-! ## Whole sources -/

/-- A rule is read exactly if the tokens of the source derive it within the levels. -/
theorem rule_iff (once : s.EndsOnce) (e : Node) :
    (∃ s', rule levels s = .ok e s') ↔
      ∃ d : RuleDerivation s.ahead, d.tree = e ∧ d.nesting ≤ levels := by
  constructor
  · rintro ⟨s', h⟩
    exact rule_sound once h
  · rintro ⟨d, rfl, hd⟩
    have hread := rule_complete d hd s
    rw [s.prepend_ahead] at hread
    exact ⟨_, hread⟩

/-- A source without statements and without faults has no tokens. -/
theorem ahead_eq_nil_of_statements (once : s.EndsOnce) {count : Nat}
    (hcount : s.ahead.length ≤ count) (hnodes : (statements levels count s).nodes = [])
    (hfaults : (statements levels count s).faults = []) : s.ahead = [] := by
  cases count with
  | zero => exact List.eq_nil_of_length_eq_zero (Nat.le_zero.1 hcount)
  | succ count =>
    by_cases heof : s.current.kind = .eof
    · exact once.ahead_eq_nil heof
    · unfold statements at hnodes hfaults
      rw [if_neg heof] at hnodes hfaults
      cases hread : statement levels s with
      | ok node rest =>
        simp only [hread] at hnodes
        cases hnodes
      | error fault rest =>
        simp only [hread] at hfaults
        split at hfaults <;> cases hfaults

/-- A source is read as one expression statement, without faults, exactly if its tokens derive the
expression as a rule that fits the levels. -/
theorem allStatements_iff (once : s.EndsOnce) (h : s.Measured) (e : Node) :
    ((allStatements levels s).faults = [] ∧
      ∃ span, (allStatements levels s).nodes = [.expressionStatement e span]) ↔
    ∃ d : RuleDerivation s.ahead, d.tree = e ∧ d.nesting ≤ levels := by
  constructor
  · rintro ⟨hfaults, span, hnodes⟩
    unfold allStatements at hfaults hnodes
    cases hcount : s.ahead.length with
    | zero =>
      rw [hcount] at hnodes
      cases hnodes
    | succ count =>
      rw [hcount] at hfaults hnodes
      unfold statements at hfaults hnodes
      split at hfaults
      · rename_i heof
        rw [if_pos heof] at hnodes
        cases hnodes
      · rename_i hne
        rw [if_neg hne] at hnodes
        cases hread : statement levels s with
        | error fault rest =>
          simp only [hread] at hfaults
          split at hfaults <;> cases hfaults
        | ok node rest =>
          simp only [hread] at hfaults hnodes
          obtain ⟨rfl, hmore⟩ := List.cons_eq_cons.1 hnodes
          obtain ⟨ts, d, rfl, htree, hd⟩ := expressionStatement_sound hread
          have hpos : 0 < ts.length := List.length_pos_iff.2 d.ne_nil
          have hnil : rest.ahead = [] := ahead_eq_nil_of_statements once.of_prepend
            (by simp only [TokenStream.ahead_prepend, List.length_append] at hcount; omega)
            hmore hfaults
          rw [TokenStream.ahead_prepend, hnil, List.append_nil]
          exact ⟨d, htree, hd⟩
  · rintro ⟨d, rfl, hd⟩
    obtain ⟨span, hread⟩ := expressionStatement_complete d hd h s
    rw [s.prepend_ahead] at hread
    have hne := current_ne_eof d.ne_nil once s.atEnd
    rw [s.prepend_ahead] at hne
    obtain ⟨count, hcount⟩ : ∃ n, s.ahead.length = n + 1 :=
      ⟨s.ahead.length - 1, by have := List.length_pos_iff.2 d.ne_nil; omega⟩
    rw [allStatements, hcount, statements, if_neg hne]
    simp only [hread, statements_atEnd]
    exact ⟨trivial, span, rfl⟩

end Grammar

end RuleLang
