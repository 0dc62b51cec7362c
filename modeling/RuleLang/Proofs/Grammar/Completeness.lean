import RuleLang.Proofs.Grammar.Derivation
import RuleLang.Proofs.Grammar.Levels

/-!
What follows the grammar is read. The tokens of a derivation are read as its tree wherever its
nesting fits the levels, unless the token behind them would extend the phrase.
-/
namespace RuleLang.Grammar

open Reader

namespace Tier

/-- The reader of a tier. -/
def reader : Tier → Nat → Reader Node
  | .chain .disjunction => Grammar.disjunction expression
  | .chain .conjunction => Grammar.conjunction expression
  | .comparison => Grammar.comparison expression
  | .chain .additive => Grammar.additive expression
  | .chain .multiplicative => Grammar.multiplicative expression
  | .unary => Grammar.unary expression
  | .primary => Grammar.primary expression

/-- The kinds of the tokens that a phrase of the tier may go on with. -/
def extensions : Tier → List Token.Kind
  | .primary | .unary => [.lparen]
  | .chain .multiplicative => [.star, .slash, .lparen]
  | .chain .additive => [.plus, .minus, .star, .slash, .lparen]
  | .comparison => Token.Kind.comparisons ++ [.plus, .minus, .star, .slash, .lparen]
  | .chain .conjunction => .and :: Token.Kind.comparisons ++ [.plus, .minus, .star, .slash, .lparen]
  | .chain .disjunction =>
    .or :: .and :: Token.Kind.comparisons ++ [.plus, .minus, .star, .slash, .lparen]

end Tier

namespace Chain

theorem reader_eq (c : Chain) :
    (Tier.chain c).reader = Grammar.chain c.operand.reader c.operators := by
  cases c <;> rfl

theorem operators_subset (c : Chain) : c.operators ⊆ (Tier.chain c).extensions := by
  cases c <;> decide

theorem operand_subset (c : Chain) : c.operand.extensions ⊆ (Tier.chain c).extensions := by
  cases c <;> decide

/-- An operator of a chain ends the operand in front of it. -/
theorem not_mem_operand_of_mem {c : Chain} {k : Token.Kind} (h : k ∈ c.operators) :
    k ∉ c.operand.extensions := by
  revert k
  cases c <;> decide

theorem ne_eof_of_mem {c : Chain} {k : Token.Kind} (h : k ∈ c.operators) : k ≠ .eof := by
  revert k
  cases c <;> decide

end Chain

theorem additive_not_mem_of_comparison {k : Token.Kind} (h : k ∈ Token.Kind.comparisons) :
    k ∉ (Tier.chain .additive).extensions := by
  revert k
  decide

theorem ne_eof_of_comparison {k : Token.Kind} (h : k ∈ Token.Kind.comparisons) : k ≠ .eof := by
  revert k
  decide

/-- The kinds of the tokens that a primary may begin with. -/
def primaryStarters : List Token.Kind := [.number, .string, .true, .false, .ident, .lparen]

/-- The first token of a phrase; the arguments of a call may have none. -/
def Starts : Nonterminal → List Token → Prop
  | .arguments, _ | .furtherArguments, _ => True
  | .tier .primary, ts => ∃ t us, ts = t :: us ∧ t.kind ∈ primaryStarters
  | _, ts => ∃ t us, ts = t :: us ∧ t.kind ∈ .minus :: .bang :: primaryStarters

theorem Starts.append {y : Nonterminal} {ts : List Token} (h : Starts y ts) (us : List Token) :
    Starts y (ts ++ us) := by
  have front {kinds : List Token.Kind} (h : ∃ t vs, ts = t :: vs ∧ t.kind ∈ kinds) :
      ∃ t vs, ts ++ us = t :: vs ∧ t.kind ∈ kinds := by
    obtain ⟨t, vs, rfl, ht⟩ := h
    exact ⟨t, vs ++ us, rfl, ht⟩
  cases y with
  | arguments => trivial
  | furtherArguments => trivial
  | tier t => cases t <;> exact front h
  | _ => exact front h

/-- What may begin a phrase of some tier may begin an expression. -/
theorem Starts.expression {t : Tier} {ts : List Token} (h : Starts (.tier t) ts) :
    Starts .expression ts := by
  cases t with
  | primary =>
    obtain ⟨t, us, rfl, ht⟩ := h
    exact ⟨t, us, rfl, List.mem_cons_of_mem _ (List.mem_cons_of_mem _ ht)⟩
  | _ => exact h

theorem starts_of_derivation {y : Nonterminal} {ts : List Token} (d : Derivation y ts) :
    Starts y ts := by
  induction d with
  | expression _ ih => exact ih
  | chain _ ih => exact ih
  | first _ ih => exact ih.expression
  | fold _ _ _ _ ih => exact ih.append _
  | uncompared _ ih => exact ih
  | compared _ _ _ _ ih => exact Starts.append (y := .tier .comparison) ih _
  | plain _ ih => exact ih.expression
  | prefixed operator h _ _ =>
    refine ⟨operator, _, rfl, ?_⟩
    simp only [List.mem_cons, List.not_mem_nil, or_false] at h ⊢
    exact h.imp_right .inl
  | literal t h => exact ⟨t, [], rfl, by rcases h with h | h <;> simp [h, primaryStarters]⟩
  | truth t h => exact ⟨t, [], rfl, by simp [h, primaryStarters]⟩
  | falsehood t h => exact ⟨t, [], rfl, by simp [h, primaryStarters]⟩
  | name t h => exact ⟨t, [], rfl, by simp [h, primaryStarters]⟩
  | call callee _ _ hn => exact ⟨callee, _, rfl, by simp [hn, primaryStarters]⟩
  | group opening _ ho => exact ⟨opening, _, rfl, by simp [ho, primaryStarters]⟩
  | noArguments => trivial
  | someArguments => trivial
  | lastArgument => trivial
  | nextArgument => trivial

/-- An expression begins with a token that may begin a primary, or with a prefix operator. -/
theorem current_ne {ts : List Token} (d : Derivation .expression ts) (s : TokenStream)
    {k : Token.Kind} (hk : k ∉ .minus :: .bang :: primaryStarters) :
    (s.prepend ts).current.kind ≠ k := by
  obtain ⟨t, us, rfl, ht⟩ := starts_of_derivation d
  rintro rfl
  exact hk ht

/-- A primary does not begin with a prefix operator. -/
theorem current_not_mem_prefixes {ts : List Token} (d : Derivation (.tier .primary) ts)
    (s : TokenStream) : (s.prepend ts).current.kind ∉ [Token.Kind.minus, .bang] := by
  obtain ⟨t, us, rfl, ht⟩ := starts_of_derivation d
  change t.kind ∉ [Token.Kind.minus, .bang]
  revert ht
  generalize t.kind = k
  revert k
  decide

theorem chainFrom_of_not_mem {operand : Nat → Reader Node} {kinds : List Token.Kind}
    {s : TokenStream} (h : s.current.kind ∉ kinds) (levels : Nat) (left : Node) :
    chainFrom operand kinds levels left s = .ok left s := by
  unfold chainFrom
  rw [bind_of_ok (accept_of_not_mem h)]
  rfl

/-- An operator takes one level for its right operand and for the rest of the chain. -/
theorem chainFrom_prepend_cons {operand : Nat → Reader Node} {kinds : List Token.Kind}
    {operator : Token} (h : operator.kind ∈ kinds) (heof : operator.kind ≠ .eof) {levels : Nat}
    {left right : Node} {ts : List Token} {s t : TokenStream}
    (hr : operand levels (s.prepend ts) = .ok right t) :
    chainFrom operand kinds (levels + 1) left (s.prepend (operator :: ts)) =
      chainFrom operand kinds levels (binary operator left right) t := by
  conv => lhs; unfold chainFrom
  rw [bind_of_ok (accept_prepend_cons h heof ts s)]
  exact bind_of_ok hr

section Leaves

variable {nested : Nat → Reader Node} {levels : Nat} {t : Token} {s : TokenStream}

theorem primary_literal (h : t.kind = .number ∨ t.kind = .string) :
    primary nested levels (s.prepend [t]) = .ok (.literal t.value t.span) s := by
  unfold primary
  rw [bind_of_ok (current_apply _)]
  rcases h with h | h
  all_goals
    rw [TokenStream.current_prepend_cons, h]
    exact bind_of_ok (advance_apply_prepend_cons (by simp [h]) [] s)

theorem primary_truth (h : t.kind = .true) :
    primary nested levels (s.prepend [t]) = .ok (.literal (.bool true) t.span) s := by
  unfold primary
  rw [bind_of_ok (current_apply _), TokenStream.current_prepend_cons, h]
  exact bind_of_ok (advance_apply_prepend_cons (by simp [h]) [] s)

theorem primary_falsehood (h : t.kind = .false) :
    primary nested levels (s.prepend [t]) = .ok (.literal (.bool false) t.span) s := by
  unfold primary
  rw [bind_of_ok (current_apply _), TokenStream.current_prepend_cons, h]
  exact bind_of_ok (advance_apply_prepend_cons (by simp [h]) [] s)

/-- A name is a whole primary unless a parenthesis follows. -/
theorem primary_name (h : t.kind = .ident) (hs : s.current.kind ≠ .lparen) :
    primary nested levels (s.prepend [t]) = .ok (.identifier t.lexeme t.span) s := by
  unfold primary
  rw [bind_of_ok (current_apply _), TokenStream.current_prepend_cons, h]
  dsimp only
  rw [bind_of_ok (advance_apply_prepend_cons (by simp [h]) [] s), TokenStream.prepend_nil,
    bind_of_ok (current_apply _), if_neg hs]
  rfl

end Leaves

/-- The kinds of tokens that end a phrase which stands in front of them. -/
def Stops : Nonterminal → Token.Kind → Prop
  | .expression, k => k ∉ (Tier.chain .disjunction).extensions
  | .tier t, k => k ∉ t.extensions
  | .folded c _, k => k ∉ c.operand.extensions
  | .arguments, k | .furtherArguments, k => k = .rparen

theorem stops_of_operator {c : Chain} {operator : Token} (h : operator.kind ∈ c.operators) (n : Nat)
    (ts : List Token) (s : TokenStream) :
    Stops (.folded c n) (s.prepend (operator :: ts)).current.kind :=
  Chain.not_mem_operand_of_mem h

theorem stops_of_comparison {operator : Token} (h : operator.kind ∈ Token.Kind.comparisons)
    (ts : List Token) (s : TokenStream) :
    Stops (.tier (.chain .additive)) (s.prepend (operator :: ts)).current.kind :=
  additive_not_mem_of_comparison h

theorem stops_of_rparen {k : Token.Kind} (h : k = .rparen) : Stops .expression k := by
  simp [Stops, h, Tier.extensions, Token.Kind.comparisons]

/-- The arguments behind an argument end it, since each begins with a comma. -/
theorem stops_of_furtherArguments {us : List Token} (ds : Derivation .furtherArguments us)
    {s : TokenStream} (hs : Stops .expression s.current.kind) :
    Stops .expression (s.prepend us).current.kind := by
  cases ds with
  | lastArgument => exact hs
  | nextArgument comma h => simp [Stops, h, Tier.extensions, Token.Kind.comparisons]

/-- How the tokens of a phrase are read in front of any stream that ends the phrase. -/
def Reads : (y : Nonterminal) → List Token → y.Value → Nat → Prop
  | .expression, ts, v, m => ∀ {levels s}, m ≤ levels → Stops .expression s.current.kind →
    expression levels (s.prepend ts) = .ok v s
  | .tier t, ts, v, m => ∀ {levels s}, m ≤ levels → Stops (.tier t) s.current.kind →
    t.reader levels (s.prepend ts) = .ok v s
  | .folded c n, ts, v, m => ∀ {levels s}, m ≤ levels → Stops (.folded c n) s.current.kind →
    chain c.operand.reader c.operators levels (s.prepend ts) =
      chainFrom c.operand.reader c.operators (levels - n) v s
  | .arguments, ts, v, m => ∀ {levels s}, m ≤ levels → Stops .arguments s.current.kind →
    arguments expression levels (s.prepend ts) = .ok v s
  | .furtherArguments, ts, v, m => ∀ {levels s count}, m ≤ levels → ts.length ≤ count →
    Stops .furtherArguments s.current.kind →
    moreArguments expression levels count (s.prepend ts) = .ok v s

theorem reads_of_derivation {y : Nonterminal} {ts : List Token} (d : Derivation y ts) :
    Reads y ts d.value d.nesting := by
  induction d with
  | expression body ih =>
    intro levels s hm hs
    simp only [Derivation.nesting] at hm
    obtain ⟨l, rfl⟩ : ∃ l, levels = l + 1 := ⟨levels - 1, by omega⟩
    rw [expression_succ]
    exact ih (by omega) hs
  | @chain c n _ operands ih =>
    intro levels s hm hs
    rw [c.reader_eq, ih hm fun h => hs (c.operand_subset h)]
    exact chainFrom_of_not_mem (fun h => hs (c.operators_subset h)) _ _
  | first operand ih =>
    intro levels s hm hs
    exact bind_of_ok (ih hm hs)
  | @fold c n ts us left operator h right ihl ihr =>
    intro levels s hm hs
    simp only [Derivation.nesting] at hm
    obtain ⟨l, hl⟩ : ∃ l, levels - n = l + 1 := ⟨levels - n - 1, by omega⟩
    have hright : c.operand.reader l (s.prepend us) = .ok right.value s := ihr (by omega) hs
    rw [TokenStream.prepend_append, ihl (by omega) (stops_of_operator h n us s), hl,
      show levels - (n + 1) = l by omega]
    exact chainFrom_prepend_cons h (Chain.ne_eof_of_mem h) hright
  | uncompared side ih =>
    intro levels s hm hs
    have hcmp : s.current.kind ∉ Token.Kind.comparisons := fun h => hs (List.mem_append_left _ h)
    have hadd : s.current.kind ∉ (Tier.chain .additive).extensions :=
      fun h => hs (List.mem_append_right _ h)
    have hside : additive expression levels _ = .ok side.value s := ih hm hadd
    change comparison expression levels _ = _
    unfold comparison
    rw [bind_of_ok hside, bind_of_ok (accept_of_not_mem hcmp)]
    rfl
  | @compared ts us left operator h right ihl ihr =>
    intro levels s hm hs
    simp only [Derivation.nesting] at hm
    have hcmp : s.current.kind ∉ Token.Kind.comparisons := fun h => hs (List.mem_append_left _ h)
    have hadd : s.current.kind ∉ (Tier.chain .additive).extensions :=
      fun h => hs (List.mem_append_right _ h)
    have hleft : additive expression levels _ = .ok left.value _ :=
      ihl (by omega) (stops_of_comparison h us s)
    have hright : additive expression levels _ = .ok right.value s := ihr (by omega) hadd
    change comparison expression levels _ = _
    unfold comparison
    rw [TokenStream.prepend_append, bind_of_ok hleft,
      bind_of_ok (accept_prepend_cons h (ne_eof_of_comparison h) us s)]
    dsimp only
    rw [bind_of_ok hright]
    change (if s.current.kind ∈ Token.Kind.comparisons then _ else _ : Reader Node) s = _
    rw [if_neg hcmp]
    rfl
  | @plain ts operand ih =>
    intro levels s hm hs
    change unary expression levels _ = _
    unfold unary
    rw [bind_of_ok (accept_of_not_mem (current_not_mem_prefixes operand s))]
    exact ih hm hs
  | @prefixed ts operator h operand ih =>
    intro levels s hm hs
    have heof : operator.kind ≠ .eof := by
      intro e
      simp [e] at h
    change unary expression levels _ = _
    unfold unary
    rw [bind_of_ok (accept_prepend_cons h heof ts s)]
    exact bind_of_ok (ih hm hs)
  | literal t h => exact fun _ _ => primary_literal h
  | truth t h => exact fun _ _ => primary_truth h
  | falsehood t h => exact fun _ _ => primary_falsehood h
  | name t h => exact fun _ hs => primary_name h fun e => hs (List.mem_singleton.2 e)
  | @call ts callee opening closing hn ho hc inner ih =>
    intro levels s hm hs
    have hclose : (s.prepend [closing]).current.kind = .rparen := hc
    change primary expression levels _ = _
    unfold primary
    rw [bind_of_ok (current_apply _), TokenStream.current_prepend_cons, hn]
    dsimp only
    rw [bind_of_ok (advance_apply_prepend_cons (by simp [hn]) _ s), bind_of_ok (current_apply _),
      TokenStream.current_prepend_cons, if_pos ho]
    unfold call
    rw [bind_of_ok (advance_apply_prepend_cons (by simp [ho]) _ s), TokenStream.prepend_append,
      bind_of_ok (ih hm hclose), bind_of_ok (expect_prepend_cons hc (by decide) _ _ _)]
    rfl
  | @group ts opening closing ho hc inner ih =>
    intro levels s hm hs
    have hclose : Stops .expression (s.prepend [closing]).current.kind := stops_of_rparen hc
    change primary expression levels _ = _
    unfold primary
    rw [bind_of_ok (current_apply _), TokenStream.current_prepend_cons, ho]
    dsimp only
    rw [bind_of_ok (advance_apply_prepend_cons (by simp [ho]) _ s), TokenStream.prepend_append,
      bind_of_ok (ih hm hclose), bind_of_ok (expect_prepend_cons hc (by decide) _ _ _)]
    rfl
  | noArguments =>
    intro levels s hm hs
    replace hs : s.current.kind = .rparen := hs
    unfold arguments
    rw [bind_of_ok (current_apply _), TokenStream.prepend_nil, if_pos hs]
    rfl
  | @someArguments ts us head further ihh ihf =>
    intro levels s hm hs
    simp only [Derivation.nesting] at hm
    unfold arguments
    rw [TokenStream.prepend_append, bind_of_ok (current_apply _),
      if_neg (current_ne head _ (by decide)),
      bind_of_ok (ihh (by omega) (stops_of_furtherArguments further (stops_of_rparen hs))),
      bind_of_ok (show remaining (s.prepend us) = .ok _ _ from rfl),
      bind_of_ok (ihf (by omega) (by simp) hs)]
    rfl
  | lastArgument =>
    intro levels s count hm hcount hs
    replace hs : s.current.kind = .rparen := hs
    cases count with
    | zero => rfl
    | succ count =>
      unfold moreArguments
      rw [TokenStream.prepend_nil, bind_of_ok (accept_of_not_mem (by simp [hs]))]
      rfl
  | @nextArgument ts us comma h head further ihh ihf =>
    intro levels s count hm hcount hs
    simp only [Derivation.nesting] at hm
    obtain ⟨count, rfl⟩ : ∃ n, count = n + 1 :=
      ⟨count - 1, by simp only [List.length_cons] at hcount; omega⟩
    have hus : us.length ≤ count := by
      simp only [List.length_cons, List.length_append] at hcount
      omega
    unfold moreArguments
    rw [bind_of_ok (accept_prepend_cons (by simp [h]) (by simp [h]) _ s)]
    dsimp only
    rw [TokenStream.prepend_append,
      bind_of_ok (ihh (by omega) (stops_of_furtherArguments further (stops_of_rparen hs))),
      bind_of_ok (ihf (by omega) hus hs)]
    rfl

end RuleLang.Grammar
