import RuleLang.Proofs.Grammar.Clauses
import RuleLang.Proofs.Node.WellFormed
import RuleLang.Proofs.Token.Lexing

/-!
The trees that are read from a source text. Its tokens are what their kinds say, so that a phrase of
them has a well-formed tree, and so has the program that is left of any source
(`isProgram_parse`).
-/
namespace RuleLang

namespace Grammar

/-! ## Phrases -/

/-- The lexeme of an operator or punctuation mark is the spelling of its kind. -/
theorem mem_spellings {t : Token} (h : t.word.WellMade)
    (hk : t.kind ∈ Token.Kind.spellings.map Prod.snd) :
    (t.lexeme, t.kind) ∈ Token.Kind.spellings := by
  simpa [Token.word] using h.fixed hk

theorem lexeme_of_operator {t : Token} {c : Chain} (h : t.word.WellMade)
    (hk : t.kind ∈ c.operators) : t.lexeme ∈ operatorStrengths.map Prod.fst := by
  have hall : ∀ c, ∀ k ∈ Chain.operators c, k ∈ Token.Kind.spellings.map Prod.snd := by
    intro c
    cases c <;> decide
  have hspelled : ∀ c, ∀ p ∈ Token.Kind.spellings, p.2 ∈ Chain.operators c →
      p.1 ∈ operatorStrengths.map Prod.fst := by
    intro c
    cases c <;> decide
  exact hspelled c _ (mem_spellings h (hall c _ hk)) hk

theorem lexeme_of_comparison {t : Token} (h : t.word.WellMade)
    (hk : t.kind ∈ Token.Kind.comparisons) : t.lexeme ∈ operatorStrengths.map Prod.fst := by
  have hall : ∀ k ∈ Token.Kind.comparisons, k ∈ Token.Kind.spellings.map Prod.snd := by decide
  have hspelled : ∀ p ∈ Token.Kind.spellings, p.2 ∈ Token.Kind.comparisons →
      p.1 ∈ operatorStrengths.map Prod.fst := by decide
  exact hspelled _ (mem_spellings h (hall _ hk)) hk

theorem lexeme_of_sign {t : Token} (h : t.word.WellMade) (hk : t.kind ∈ [.minus, .bang]) :
    t.lexeme = "-" ∨ t.lexeme = "!" := by
  have hall : ∀ k ∈ [Token.Kind.minus, .bang], k ∈ Token.Kind.spellings.map Prod.snd := by decide
  have hspelled : ∀ p ∈ Token.Kind.spellings, p.2 ∈ [Token.Kind.minus, .bang] →
      p.1 = "-" ∨ p.1 = "!" := by decide
  exact hspelled _ (mem_spellings h (hall _ hk)) hk

theorem isName_of_kind {t : Token} (h : t.word.WellMade) (hk : t.kind = .ident) :
    IsName t.lexeme := by
  simpa [Token.word] using h.name hk

/-- A phrase stands for an expression, or for expressions. -/
def IsPhrase : (y : Nonterminal) → y.Value → Prop
  | .expression, n => n.IsExpression
  | .tier _, n => n.IsExpression
  | .folded _ _, n => n.IsExpression
  | .arguments, ns => ∀ n ∈ ns, n.IsExpression
  | .furtherArguments, ns => ∀ n ∈ ns, n.IsExpression

/-- Tokens that are what their kinds say make well-formed trees. -/
theorem isPhrase_value {y : Nonterminal} {ts : List Token} (d : Derivation y ts)
    (h : ∀ t ∈ ts, t.word.WellMade) : IsPhrase y d.value := by
  induction d with
  | expression body ih => exact ih h
  | chain operands ih => exact ih h
  | first operand ih => exact ih h
  | fold left operator hop right ihl ihr =>
    obtain ⟨hleft, htail⟩ := List.forall_mem_append.1 h
    obtain ⟨hoperator, hright⟩ := List.forall_mem_cons.1 htail
    exact .binary (lexeme_of_operator hoperator hop) (ihl hleft) (ihr hright)
  | uncompared side ih => exact ih h
  | compared left operator hop right ihl ihr =>
    obtain ⟨hleft, htail⟩ := List.forall_mem_append.1 h
    obtain ⟨hoperator, hright⟩ := List.forall_mem_cons.1 htail
    exact .binary (lexeme_of_comparison hoperator hop) (ihl hleft) (ihr hright)
  | plain operand ih => exact ih h
  | prefixed operator hop operand ih =>
    obtain ⟨hoperator, hoperand⟩ := List.forall_mem_cons.1 h
    exact .unary (lexeme_of_sign hoperator hop) (ih hoperand)
  | literal t ht => exact .literal ((h t List.mem_cons_self).literal ht)
  | truth t ht => exact .literal trivial
  | falsehood t ht => exact .literal trivial
  | name t ht => exact .identifier (isName_of_kind (h t List.mem_cons_self) ht)
  | call callee opening closing hn ho hc inner ih =>
    obtain ⟨hcallee, htail⟩ := List.forall_mem_cons.1 h
    obtain ⟨-, htail⟩ := List.forall_mem_cons.1 htail
    exact .call (isName_of_kind hcallee hn) (ih (List.forall_mem_append.1 htail).1)
  | group opening closing ho hc inner ih =>
    obtain ⟨-, htail⟩ := List.forall_mem_cons.1 h
    exact Node.IsExpression.withSpan (ih (List.forall_mem_append.1 htail).1) _
  | noArguments | lastArgument => exact List.forall_mem_nil _
  | someArguments head further ihh ihf =>
    obtain ⟨hhead, hfurther⟩ := List.forall_mem_append.1 h
    exact List.forall_mem_cons.2 ⟨ihh hhead, ihf hfurther⟩
  | nextArgument comma hcomma head further ihh ihf =>
    obtain ⟨-, htail⟩ := List.forall_mem_cons.1 h
    obtain ⟨hhead, hfurther⟩ := List.forall_mem_append.1 htail
    exact List.forall_mem_cons.2 ⟨ihh hhead, ihf hfurther⟩

/-! ## Statements -/

section Statements

variable {levels : Nat} {s s' : TokenStream} {n : Node} (h : ∀ t ∈ s.ahead, t.word.WellMade)
include h

omit h in
/-- A clause of well-made tokens is a well-formed statement. -/
theorem isStatement_value {ts : List Token} (c : Clause ts) (h : ∀ t ∈ ts, t.word.WellMade) :
    c.value.IsStatement := by
  cases c with
  | expression d => exact .expressionStatement (isPhrase_value d h)
  | declaration word name equal hword hname hequal d =>
    obtain ⟨-, htail⟩ := List.forall_mem_cons.1 h
    obtain ⟨hmade, htail⟩ := List.forall_mem_cons.1 htail
    obtain ⟨-, htail⟩ := List.forall_mem_cons.1 htail
    exact .variableDeclaration (isName_of_kind hmade hname) (isPhrase_value d htail)

theorem isStatement_of_read (hr : statement levels s = .ok n s') : n.IsStatement := by
  obtain ⟨ts, c, -, hvalue, stop, -, rfl⟩ := statement_sound hr
  have hc := isStatement_value c fun t ht => h t (by simp [ht])
  obtain rfl | ⟨span, rfl⟩ := hvalue
  · exact hc
  · exact hc.withSpan span

end Statements

theorem mem_attempts {levels : Nat} {s : TokenStream} {segs : List (List Token)} {a : Attempt}
    (h : a ∈ attempts levels s segs) : ∃ segment ∈ segs, a = attempt levels s segment := by
  induction segs with
  | nil => cases h
  | cons segment more ih =>
    rw [attempts_cons] at h
    obtain rfl | h := List.mem_cons.1 h
    · exact ⟨segment, List.mem_cons_self, rfl⟩
    · split at h
      · obtain ⟨found, hfound, ha⟩ := ih h
        exact ⟨found, List.mem_cons_of_mem _ hfound, ha⟩
      · cases h

/-- All statements that are read from well-made tokens are well-formed, whatever else is wrong. -/
theorem isStatement_of_mem_nodes {levels : Nat} {s : TokenStream}
    (h : ∀ t ∈ s.ahead, t.word.WellMade) {n : Node}
    (hn : n ∈ (allStatements levels s).nodes) : n.IsStatement := by
  have hnodes := (statements_attempts levels (fun t ht => (h t ht).notEnd) (Nat.le_refl _) s).1
  rw [s.prepend_ahead] at hnodes
  rw [allStatements, hnodes] at hn
  obtain ⟨a, ha, hnode⟩ := List.mem_filterMap.1 hn
  obtain ⟨segment, hsegment, rfl⟩ := mem_attempts ha
  have hmade : ∀ t ∈ (s.atEnd.prepend segment).ahead, t.word.WellMade := by
    intro t ht
    rw [TokenStream.ahead_prepend, TokenStream.atEnd, List.append_nil] at ht
    exact h t (flatten_segments s.ahead ▸ List.mem_flatten_of_mem hsegment ht)
  cases hr : statement levels (s.atEnd.prepend segment) with
  | error fault rest =>
    rw [attempt, Goal.read, hr] at hnode
    cases hnode
  | ok m rest =>
    rw [attempt, Goal.read, hr] at hnode
    cases hnode
    exact isStatement_of_read hmade hr

end Grammar

/-- The program that is left of any source text is well-formed. -/
theorem isProgram_parse (source : String) (file : Option String) (o : Options) :
    (parse source file o).program.IsProgram :=
  .program fun _ hn => Grammar.isStatement_of_mem_nodes (fun _ ht => wellMade_of_mem_lex ht) hn

end RuleLang
