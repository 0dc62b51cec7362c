import RuleLang.Grammar.Goal
import RuleLang.Proofs.Grammar.Soundness
import RuleLang.Proofs.Grammar.Unambiguity

/-!
Reading a rule. The tokens of a source are read as a rule exactly when they derive an expression,
with at most one semicolon behind it, whose nesting does not exceed the limit; the derivation is the
only one (`rule_outcome`).
-/
namespace RuleLang.Grammar

open Reader

/-- A way to form a list of tokens by `Rule := Expression ";"?`. -/
inductive RuleDerivation : List Token → Type where
  | bare {ts : List Token} (expression : Derivation .expression ts) : RuleDerivation ts
  | terminated {ts : List Token} (expression : Derivation .expression ts) (semicolon : Token)
      (h : semicolon.kind = .semicolon) : RuleDerivation (ts ++ [semicolon])

namespace RuleDerivation

def tree : {ts : List Token} → RuleDerivation ts → Node
  | _, bare expression => expression.value
  | _, terminated expression _ _ => expression.value

def nesting : {ts : List Token} → RuleDerivation ts → Nat
  | _, bare expression => expression.nesting
  | _, terminated expression _ _ => expression.nesting

end RuleDerivation

/-- An expression is nested at least one level deep. -/
theorem nesting_pos {ts : List Token} (d : Derivation .expression ts) : 0 < d.nesting := by
  cases d with
  | expression body =>
    simp only [Derivation.nesting]
    omega

theorem RuleDerivation.nesting_pos {ts : List Token} (d : RuleDerivation ts) : 0 < d.nesting := by
  cases d with
  | bare expression => exact Grammar.nesting_pos expression
  | terminated expression => exact Grammar.nesting_pos expression

/-- Neither a semicolon nor the end of the source continues an expression. -/
theorem stops_of_end {k : Token.Kind} (h : k = .semicolon ∨ k = .eof) : Stops .expression k := by
  rcases h with rfl | rfl <;> simp [Stops, Tier.extensions, Token.Kind.comparisons]

/-- The semicolon behind an expression is no part of it. -/
theorem ne_append_semicolon {ts us : List Token} {semicolon : Token}
    (d : Derivation .expression ts) (d' : Derivation .expression us)
    (h : semicolon.kind = .semicolon) : ts ≠ us ++ [semicolon] := by
  rintro rfl
  have hs : Stops .expression (emptyStream.prepend [semicolon]).current.kind :=
    stops_of_end (.inl h)
  have hend := (expression_end d' d hs (stops_of_end (.inr current_emptyStream)) (by simp)).1
  simp at hend

theorem heq_of_ruleDerivations {ts us : List Token} (d : RuleDerivation ts)
    (d' : RuleDerivation us) (h : ts = us) : HEq d d' := by
  cases d with
  | bare expression =>
    cases d' with
    | bare expression' =>
      subst h
      cases heq_of_derivations expression expression' rfl
      rfl
    | terminated expression' semicolon hs =>
      exact absurd h (ne_append_semicolon expression expression' hs)
  | terminated expression semicolon hs =>
    cases d' with
    | bare expression' => exact absurd h.symm (ne_append_semicolon expression' expression hs)
    | terminated expression' semicolon' hs' =>
      obtain ⟨rfl, hsemicolon⟩ := List.append_inj' h rfl
      obtain rfl := List.singleton_inj.1 hsemicolon
      cases heq_of_derivations expression expression' rfl
      rfl

theorem subsingleton_ruleDerivation (ts : List Token) : Subsingleton (RuleDerivation ts) :=
  ⟨fun d d' => eq_of_heq (heq_of_ruleDerivations d d' rfl)⟩

/-- What is read as a rule is derived from all tokens of the source. -/
theorem rule_sound {levels : Nat} {s s' : TokenStream} {e : Node} (once : s.EndsOnce)
    (hr : rule levels s = .ok e s') :
    ∃ d : RuleDerivation s.ahead, d.tree = e ∧ d.nesting ≤ levels := by
  unfold rule at hr
  rw [bind_eq_ok] at hr
  obtain ⟨tree, t, htree, hr⟩ := hr
  obtain ⟨ts, d, rfl, rfl, hd⟩ := expression_sound levels htree
  rw [bind_eq_ok] at hr
  obtain ⟨found, u, hfound, hr⟩ := hr
  rw [bind_eq_ok] at hr
  obtain ⟨last, w, hlast, hr⟩ := hr
  obtain ⟨rfl, rfl⟩ := pure_eq_ok.1 hr
  have heof : u.current.kind = .eof := by
    unfold expect at hlast
    split at hlast
    · assumption
    · cases hlast
  cases found with
  | none =>
    obtain ⟨-, rfl⟩ := accept_none hfound
    have hnil : u.ahead = [] := once.of_prepend.ahead_eq_nil heof
    rw [TokenStream.ahead_prepend, hnil, List.append_nil]
    exact ⟨.bare d, rfl, hd⟩
  | some semicolon =>
    obtain ⟨hsemicolon, rfl⟩ := accept_some hfound (by decide)
    have hnil : u.ahead = [] := once.of_prepend.of_prepend.ahead_eq_nil heof
    rw [TokenStream.ahead_prepend, TokenStream.ahead_prepend, hnil, List.append_nil]
    exact ⟨.terminated d semicolon (List.mem_singleton.1 hsemicolon), rfl, hd⟩

/-- At the end of the source nothing is left for a rule to read. -/
theorem expect_eof {s : TokenStream} (e : SyntaxError) :
    expect .eof e s.atEnd = .ok s.last s.atEnd := by
  unfold expect
  rw [if_pos (show s.atEnd.current.kind = .eof from s.last_eof)]
  rfl

/-- All tokens of a derivation that fits the levels are read as a rule. -/
theorem rule_complete {levels : Nat} {ts : List Token} (d : RuleDerivation ts)
    (hd : d.nesting ≤ levels) (s : TokenStream) :
    rule levels (s.atEnd.prepend ts) = .ok d.tree s.atEnd := by
  have hend : s.atEnd.current.kind = .eof := s.last_eof
  unfold rule
  cases d with
  | bare expression =>
    rw [bind_of_ok (reads_of_derivation expression hd (stops_of_end (.inr hend))),
      bind_of_ok (accept_of_not_mem (by simp [s.last_eof])), bind_of_ok (expect_eof _)]
    rfl
  | @terminated ts expression semicolon hsemicolon =>
    have hstop : Stops .expression (s.atEnd.prepend [semicolon]).current.kind :=
      stops_of_end (.inl hsemicolon)
    rw [TokenStream.prepend_append, bind_of_ok (reads_of_derivation expression hd hstop),
      bind_of_ok (accept_prepend_cons (by simp [hsemicolon]) (by simp [hsemicolon]) [] _),
      TokenStream.prepend_nil, bind_of_ok (expect_eof _)]
    rfl

/-- A token without a place or a value. -/
def bareToken (kind : Token.Kind) (lexeme : String) : Token :=
  ⟨kind, lexeme, ⟨"", 0, 0, 1, 1, 1, 1⟩, .null⟩

/-- The tokens of `a or b;`. -/
def disjoined : TokenStream :=
  ⟨[bareToken .ident "a", bareToken .or "or", bareToken .ident "b", bareToken .semicolon ";"],
    bareToken .eof "", rfl⟩

/-- A name as an operand of a disjunction. -/
def nameOperand (t : Token) (h : t.kind = .ident) :
    Derivation (.tier (.chain .conjunction)) [t] :=
  .chain (.first (.uncompared (.chain (.first (.chain (.first (.plain (.name t h))))))))

def disjoinedDerivation : RuleDerivation disjoined.ahead :=
  let left : Derivation (.folded .disjunction 0) [bareToken .ident "a"] :=
    .first (nameOperand _ rfl)
  let right := nameOperand (bareToken .ident "b") rfl
  .terminated (.expression (.chain (left.fold (bareToken .or "or") (by decide) right)))
    (bareToken .semicolon ";") rfl

end RuleLang.Grammar
