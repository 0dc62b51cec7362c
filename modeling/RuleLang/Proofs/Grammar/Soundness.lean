import RuleLang.Proofs.Grammar.Derivation
import RuleLang.Proofs.Grammar.Levels

/-!
What is read follows the grammar. Each reader that gives a value has taken tokens from which its
nonterminal derives that value, with no more nesting than the levels it was given.
-/
namespace RuleLang

namespace Grammar

open Reader

/-- What the reader gives is derived from the tokens it takes, within the levels. -/
def Sound (levels : Nat) (y : Nonterminal) (r : Reader y.Value) : Prop :=
  ∀ {s v s'}, r s = .ok v s' →
    ∃ ts, ∃ d : Derivation y ts, s = s'.prepend ts ∧ d.value = v ∧ d.nesting ≤ levels

/-- No operator of a chain is an end mark. -/
theorem Chain.eof_not_mem_operators (c : Chain) : Token.Kind.eof ∉ c.operators := by
  cases c <;> decide

section Tiers

variable {nested : Nat → Reader Node} {levels : Nat}

/-- A chain ends in front of a token that is none of its operators, or takes an operator and one
level for the operand behind it. -/
theorem chainFrom_ok {operand : Nat → Reader Node} {kinds : List Token.Kind} {left v : Node}
    {s s' : TokenStream} (h : chainFrom operand kinds levels left s = .ok v s')
    (heof : Token.Kind.eof ∉ kinds) :
    (v = left ∧ s' = s) ∨ ∃ l operator t right u, levels = l + 1 ∧ operator.kind ∈ kinds ∧
      s = t.prepend [operator] ∧ operand l t = .ok right u ∧
      chainFrom operand kinds l (binary operator left right) u = .ok v s' := by
  unfold chainFrom at h
  rw [bind_eq_ok] at h
  obtain ⟨found, t, hfound, h⟩ := h
  cases found with
  | none =>
    obtain ⟨-, rfl⟩ := accept_none hfound
    obtain ⟨rfl, rfl⟩ := pure_eq_ok.1 h
    exact .inl ⟨rfl, rfl⟩
  | some operator =>
    obtain ⟨hop, rfl⟩ := accept_some hfound heof
    cases levels with
    | zero => cases h
    | succ l =>
      rw [bind_eq_ok] at h
      obtain ⟨right, u, hright, h⟩ := h
      exact .inr ⟨l, operator, t, right, u, rfl, hop, rfl, hright, h⟩

/-- A chain that has read `n` operators goes on with a derivation that holds more of them. -/
theorem chainFrom_sound {c : Chain} {operand : Nat → Reader Node}
    (h : ∀ l ≤ levels, Sound l (.tier c.operand) (operand l)) {n : Nat} {ts : List Token}
    (d : Derivation (.folded c n) ts) (hd : d.nesting ≤ n + levels) {s s' : TokenStream} {v : Node}
    (hr : chainFrom operand c.operators levels d.value s = .ok v s') :
    ∃ us m vs, ∃ d' : Derivation (.folded c m) vs,
      vs = ts ++ us ∧ s = s'.prepend us ∧ d'.value = v ∧ d'.nesting ≤ n + levels := by
  induction levels using Nat.strongRecOn generalizing n ts s with
  | ind levels ih =>
    obtain ⟨rfl, rfl⟩ | ⟨l, operator, t, right, u, rfl, hop, rfl, hright, hrest⟩ :=
      chainFrom_ok hr c.eof_not_mem_operators
    · exact ⟨[], n, ts, d, by simp, by simp, rfl, hd⟩
    · obtain ⟨us, r, rfl, rfl, hrn⟩ := h l (by omega) hright
      have hfold : (d.fold operator hop r).nesting ≤ n + 1 + l := by
        simp only [Derivation.nesting]
        omega
      obtain ⟨ws, m, vs, d', rfl, rfl, hv, hn⟩ :=
        ih l (by omega) (fun k hk => h k (by omega)) (d.fold operator hop r) hfold hrest
      exact ⟨operator :: us ++ ws, m, _, d', by simp, by simp [← TokenStream.prepend_append], hv,
        by omega⟩

theorem chain_sound {c : Chain} {operand : Nat → Reader Node}
    (h : ∀ l ≤ levels, Sound l (.tier c.operand) (operand l)) :
    Sound levels (.tier (.chain c)) (chain operand c.operators levels) := by
  intro s v s' hr
  unfold chain at hr
  rw [bind_eq_ok] at hr
  obtain ⟨left, t, hleft, hr⟩ := hr
  obtain ⟨ts, d, rfl, rfl, hd⟩ := h levels (Nat.le_refl _) hleft
  have hfirst : d.first.nesting ≤ 0 + levels := by simpa [Derivation.nesting] using hd
  obtain ⟨us, m, vs, d', rfl, rfl, hv, hn⟩ := chainFrom_sound h d.first hfirst hr
  exact ⟨ts ++ us, d'.chain, by simp, hv, by simpa [Derivation.nesting] using hn⟩

/-- The arguments behind the first one are derived from the tokens they take. -/
theorem moreArguments_sound (h : Sound levels .expression (nested levels)) (count : Nat) :
    Sound levels .furtherArguments (moreArguments nested levels count) := by
  induction count with
  | zero =>
    intro s v s' hr
    obtain ⟨rfl, rfl⟩ := pure_eq_ok.1 hr
    exact ⟨[], .lastArgument, rfl, rfl, Nat.zero_le _⟩
  | succ count ih =>
    intro s v s' hr
    unfold moreArguments at hr
    rw [bind_eq_ok] at hr
    obtain ⟨found, t, hfound, hr⟩ := hr
    cases found with
    | none =>
      obtain ⟨-, rfl⟩ := accept_none hfound
      obtain ⟨rfl, rfl⟩ := pure_eq_ok.1 hr
      exact ⟨[], .lastArgument, rfl, rfl, Nat.zero_le _⟩
    | some comma =>
      obtain ⟨hcomma, rfl⟩ := accept_some hfound (by decide)
      rw [bind_eq_ok] at hr
      obtain ⟨head, u, hhead, hr⟩ := hr
      obtain ⟨ts, d, rfl, rfl, hd⟩ := h hhead
      rw [bind_eq_ok] at hr
      obtain ⟨rest, w, hrest, hr⟩ := hr
      obtain ⟨us, ds, rfl, rfl, hds⟩ := ih hrest
      obtain ⟨rfl, rfl⟩ := pure_eq_ok.1 hr
      refine ⟨_, .nextArgument comma (List.mem_singleton.1 hcomma) d ds, ?_, rfl, ?_⟩
      · simp [TokenStream.prepend]
      · simp only [Derivation.nesting]
        omega

theorem arguments_sound (h : Sound levels .expression (nested levels)) :
    Sound levels .arguments (arguments nested levels) := by
  intro s v s' hr
  unfold arguments at hr
  rw [bind_eq_ok] at hr
  obtain ⟨t, u, ht, hr⟩ := hr
  cases ht
  split at hr
  · obtain ⟨rfl, rfl⟩ := pure_eq_ok.1 hr
    exact ⟨[], .noArguments, rfl, rfl, Nat.zero_le _⟩
  · rw [bind_eq_ok] at hr
    obtain ⟨head, u, hhead, hr⟩ := hr
    obtain ⟨ts, d, rfl, rfl, hd⟩ := h hhead
    rw [bind_eq_ok] at hr
    obtain ⟨count, w, hcount, hr⟩ := hr
    cases hcount
    rw [bind_eq_ok] at hr
    obtain ⟨rest, w, hrest, hr⟩ := hr
    obtain ⟨us, ds, rfl, rfl, hds⟩ := moreArguments_sound h _ hrest
    obtain ⟨rfl, rfl⟩ := pure_eq_ok.1 hr
    refine ⟨ts ++ us, .someArguments d ds, by simp, rfl, ?_⟩
    simp only [Derivation.nesting]
    omega

theorem call_sound (h : Sound levels .expression (nested levels)) {callee : Token}
    (hn : callee.kind = .ident) {s s' : TokenStream} {v : Node}
    (hs : s.current.kind = .lparen)
    (hr : call nested (.identifier callee.lexeme callee.span) levels s = .ok v s') :
    ∃ ts, ∃ d : Derivation (.tier .primary) (callee :: ts),
      s = s'.prepend ts ∧ d.value = v ∧ d.nesting ≤ levels := by
  unfold call at hr
  rw [bind_eq_ok] at hr
  obtain ⟨opening, t, hopen, hr⟩ := hr
  obtain ⟨rfl, hst⟩ := advance_ok hopen (by simp [hs])
  rw [bind_eq_ok] at hr
  obtain ⟨trees, u, htrees, hr⟩ := hr
  obtain ⟨ts, d, rfl, rfl, hd⟩ := arguments_sound h htrees
  rw [bind_eq_ok] at hr
  obtain ⟨closing, w, hclose, hr⟩ := hr
  obtain ⟨hc, rfl⟩ := expect_ok hclose (by decide)
  obtain ⟨rfl, rfl⟩ := pure_eq_ok.1 hr
  exact ⟨_, .call callee s.current closing hn hs hc d, hst.trans (by simp [TokenStream.prepend]),
    rfl, hd⟩

/-- A primary in parentheses. -/
theorem group_sound (h : Sound levels .expression (nested levels)) {s s' : TokenStream} {v : Node}
    (hs : s.current.kind = .lparen)
    (hr : (do
      let _ ← advance
      let expression ← nested levels
      let close ← expect .rparen .closingParenthesis
      return expression.withSpan (s.current.span.merge close.span) : Reader Node) s = .ok v s') :
    ∃ ts, ∃ d : Derivation (.tier .primary) ts,
      s = s'.prepend ts ∧ d.value = v ∧ d.nesting ≤ levels := by
  rw [bind_eq_ok] at hr
  obtain ⟨opening, t, hopen, hr⟩ := hr
  obtain ⟨rfl, hst⟩ := advance_ok hopen (by simp [hs])
  rw [bind_eq_ok] at hr
  obtain ⟨tree, u, htree, hr⟩ := hr
  obtain ⟨ts, d, rfl, rfl, hd⟩ := h htree
  rw [bind_eq_ok] at hr
  obtain ⟨closing, w, hclose, hr⟩ := hr
  obtain ⟨hc, rfl⟩ := expect_ok hclose (by decide)
  obtain ⟨rfl, rfl⟩ := pure_eq_ok.1 hr
  exact ⟨_, .group s.current closing hs hc d, hst.trans (by simp [TokenStream.prepend]), rfl, hd⟩

/-- A primary of one token. -/
theorem leaf_sound {s s' : TokenStream} {v w : Node} (hs : s.current.kind ≠ .eof)
    (d : Derivation (.tier .primary) [s.current]) (hv : d.value = v) (hd : d.nesting = 0)
    (hr : (do
      let _ ← advance
      return v : Reader Node) s = .ok w s') :
    ∃ ts, ∃ d : Derivation (.tier .primary) ts,
      s = s'.prepend ts ∧ d.value = w ∧ d.nesting ≤ levels := by
  rw [bind_eq_ok] at hr
  obtain ⟨t, u, ht, hr⟩ := hr
  obtain ⟨rfl, hst⟩ := advance_ok ht hs
  obtain ⟨rfl, rfl⟩ := pure_eq_ok.1 hr
  exact ⟨_, d, hst, hv, by omega⟩

theorem primary_sound (h : Sound levels .expression (nested levels)) :
    Sound levels (.tier .primary) (primary nested levels) := by
  intro s v s' hr
  unfold primary at hr
  rw [bind_eq_ok] at hr
  obtain ⟨t, u, ht, hr⟩ := hr
  cases ht
  cases hk : s.current.kind with
  | number =>
    rw [hk] at hr
    exact leaf_sound (by simp [hk]) (.literal _ (.inl hk)) rfl rfl hr
  | string =>
    rw [hk] at hr
    exact leaf_sound (by simp [hk]) (.literal _ (.inr hk)) rfl rfl hr
  | true =>
    rw [hk] at hr
    exact leaf_sound (by simp [hk]) (.truth _ hk) rfl rfl hr
  | false =>
    rw [hk] at hr
    exact leaf_sound (by simp [hk]) (.falsehood _ hk) rfl rfl hr
  | ident =>
    rw [hk] at hr
    dsimp only at hr
    rw [bind_eq_ok] at hr
    obtain ⟨t, u, ht, hr⟩ := hr
    obtain ⟨rfl, hst⟩ := advance_ok ht (by simp [hk])
    rw [bind_eq_ok] at hr
    obtain ⟨next, w, hnext, hr⟩ := hr
    cases hnext
    split at hr
    · rename_i hparen
      obtain ⟨ts, d, rfl, hv, hd⟩ := call_sound h hk hparen hr
      exact ⟨_, d, hst.trans (TokenStream.prepend_cons ..).symm, hv, hd⟩
    · obtain ⟨rfl, rfl⟩ := pure_eq_ok.1 hr
      exact ⟨_, .name _ hk, hst, rfl, Nat.zero_le _⟩
  | lparen =>
    rw [hk] at hr
    exact group_sound h hk hr
  | _ =>
    rw [hk] at hr
    cases hr

theorem unary_sound (h : Sound levels .expression (nested levels)) :
    Sound levels (.tier .unary) (unary nested levels) := by
  intro s v s' hr
  unfold unary at hr
  rw [bind_eq_ok] at hr
  obtain ⟨found, t, hfound, hr⟩ := hr
  cases found with
  | none =>
    obtain ⟨-, rfl⟩ := accept_none hfound
    obtain ⟨ts, d, rfl, hv, hd⟩ := primary_sound h hr
    exact ⟨ts, d.plain, rfl, hv, hd⟩
  | some operator =>
    obtain ⟨hop, rfl⟩ := accept_some hfound (by decide)
    dsimp only at hr
    rw [bind_eq_ok] at hr
    obtain ⟨operand, u, hoperand, hr⟩ := hr
    obtain ⟨ts, d, rfl, rfl, hd⟩ := primary_sound h hoperand
    obtain ⟨rfl, rfl⟩ := pure_eq_ok.1 hr
    exact ⟨operator :: ts, d.prefixed operator hop, (TokenStream.prepend_cons ..).symm, rfl, hd⟩

theorem additive_sound (h : ∀ l ≤ levels, Sound l .expression (nested l)) :
    Sound levels (.tier (.chain .additive)) (additive nested levels) :=
  chain_sound (c := .additive) fun l hl =>
    chain_sound (c := .multiplicative) fun k hk => unary_sound (h k (by omega))

theorem comparison_sound (h : ∀ l ≤ levels, Sound l .expression (nested l)) :
    Sound levels (.tier .comparison) (comparison nested levels) := by
  intro s v s' hr
  unfold comparison at hr
  rw [bind_eq_ok] at hr
  obtain ⟨left, t, hleft, hr⟩ := hr
  obtain ⟨ts, d, rfl, rfl, hd⟩ := additive_sound h hleft
  rw [bind_eq_ok] at hr
  obtain ⟨found, u, hfound, hr⟩ := hr
  cases found with
  | none =>
    obtain ⟨-, rfl⟩ := accept_none hfound
    obtain ⟨rfl, rfl⟩ := pure_eq_ok.1 hr
    exact ⟨ts, d.uncompared, rfl, rfl, hd⟩
  | some operator =>
    obtain ⟨hop, rfl⟩ := accept_some hfound (by decide)
    dsimp only at hr
    rw [bind_eq_ok] at hr
    obtain ⟨right, w, hright, hr⟩ := hr
    obtain ⟨us, r, rfl, rfl, hrn⟩ := additive_sound h hright
    rw [bind_eq_ok] at hr
    obtain ⟨next, x, hnext, hr⟩ := hr
    cases hnext
    split at hr
    · cases hr
    · obtain ⟨rfl, rfl⟩ := pure_eq_ok.1 hr
      refine ⟨_, d.compared operator hop r, by simp [TokenStream.prepend], rfl, ?_⟩
      simp only [Derivation.nesting]
      omega

theorem disjunction_sound (h : ∀ l ≤ levels, Sound l .expression (nested l)) :
    Sound levels (.tier (.chain .disjunction)) (disjunction nested levels) :=
  chain_sound (c := .disjunction) fun l hl =>
    chain_sound (c := .conjunction) fun k hk => comparison_sound fun j hj => h j (by omega)

end Tiers

/-- An expression that is read is derived from the tokens it takes, within the levels. -/
theorem expression_sound (levels : Nat) : Sound levels .expression (expression levels) := by
  induction levels using Nat.strongRecOn with
  | ind levels ih =>
    intro s v s' hr
    cases levels with
    | zero => cases hr
    | succ levels =>
      rw [expression_succ] at hr
      obtain ⟨ts, d, rfl, rfl, hd⟩ := disjunction_sound (fun l hl => ih l (by omega)) hr
      refine ⟨ts, .expression d, rfl, rfl, ?_⟩
      simp only [Derivation.nesting]
      omega

end Grammar

end RuleLang
