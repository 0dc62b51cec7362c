import RuleLang.Proofs.Grammar.Clauses
import RuleLang.Cursor
import RuleLang.Proofs.Grammar.Lookahead

/-!
Faults are found as early as possible. When a reader misses something at a token, the tokens in
front of it still begin a phrase within the same levels (`expression_reaches`,
`statement_reaches`): a name stands for an operand that is pending, and closing parentheses are
added for those that are open. With the token itself no statement begins (`fault_earliest`).
-/
namespace RuleLang.Grammar

open Reader

/-- The tokens are the first ones of a phrase that fits the levels. -/
def Begins (levels : Nat) (y : Nonterminal) (pre : List Token) : Prop :=
  ∃ ts, pre <+: ts ∧ ∃ d : Derivation y ts, d.nesting ≤ levels

/-- Where the reader misses something, it has taken the first tokens of a phrase, and the current
token is the one that does not fit. -/
def Reaches (levels : Nat) (y : Nonterminal) (r : Reader y.Value) : Prop :=
  ∀ {s s' e t}, r s = .error (.unexpected e t) s' →
    ∃ pre, s = s'.prepend pre ∧ t = s'.current ∧ Begins levels y pre

/-! ## Chains -/

section Chains

variable {operand : Nat → Reader Node} {levels : Nat} {s s' : TokenStream} {e : SyntaxError}
  {t : Token}

/-- What a chain misses is missed by the operand behind one of its operators. -/
theorem chainFrom_unexpected {kinds : List Token.Kind} {left : Node}
    (h : chainFrom operand kinds levels left s = .error (.unexpected e t) s')
    (heof : Token.Kind.eof ∉ kinds) :
    ∃ l operator u, levels = l + 1 ∧ operator.kind ∈ kinds ∧ s = u.prepend [operator] ∧
      (operand l u = .error (.unexpected e t) s' ∨ ∃ right v, operand l u = .ok right v ∧
        chainFrom operand kinds l (binary operator left right) v =
          .error (.unexpected e t) s') := by
  unfold chainFrom at h
  rw [bind_eq_error] at h
  obtain h | ⟨found, u, hfound, h⟩ := h
  · exact absurd h accept_ne_error
  · cases found with
    | none => cases h
    | some operator =>
      obtain ⟨hop, rfl⟩ := accept_some hfound heof
      cases levels with
      | zero => cases h
      | succ l => exact ⟨l, operator, u, rfl, hop, rfl, bind_eq_error.1 h⟩

/-- A chain that has read `n` operators has taken the first tokens of a chain of more of them. -/
theorem chainFrom_reaches {c : Chain} (hs : ∀ l ≤ levels, Sound l (.tier c.operand) (operand l))
    (h : ∀ l ≤ levels, Reaches l (.tier c.operand) (operand l)) {n : Nat} {ts : List Token}
    (d : Derivation (.folded c n) ts) (hd : d.nesting ≤ n + levels)
    (hr : chainFrom operand c.operators levels d.value s = .error (.unexpected e t) s') :
    ∃ pre, s = s'.prepend pre ∧ t = s'.current ∧
      ∃ m, Begins (n + levels) (.folded c m) (ts ++ pre) := by
  induction levels using Nat.strongRecOn generalizing n ts s with
  | ind levels ih =>
    obtain ⟨l, operator, u, rfl, hop, rfl, hfails | ⟨right, v, hright, hrest⟩⟩ :=
      chainFrom_unexpected hr c.eof_not_mem_operators
    · obtain ⟨pre, rfl, rfl, us, hpre, r, hrn⟩ := h l (by omega) hfails
      refine ⟨operator :: pre, (TokenStream.prepend_cons ..).symm, rfl, n + 1,
        ts ++ operator :: us, ?_, d.fold operator hop r, ?_⟩
      · exact (List.prefix_append_right_inj ts).2 (List.cons_prefix_cons.2 ⟨rfl, hpre⟩)
      · simp only [Derivation.nesting]
        omega
    · obtain ⟨us, r, rfl, rfl, hrn⟩ := hs l (by omega) hright
      have hfold : (d.fold operator hop r).nesting ≤ n + 1 + l := by
        simp only [Derivation.nesting]
        omega
      obtain ⟨pre, rfl, rfl, m, ws, hpre, d', hn⟩ := ih l (by omega)
        (fun k hk => hs k (by omega)) (fun k hk => h k (by omega)) (d.fold operator hop r)
        hfold hrest
      refine ⟨operator :: us ++ pre, ?_, rfl, m, ws, ?_, d', by omega⟩
      · rw [TokenStream.prepend_append]
        exact (TokenStream.prepend_cons ..).symm
      · rwa [← List.append_assoc]

theorem chain_reaches {c : Chain} (hs : ∀ l ≤ levels, Sound l (.tier c.operand) (operand l))
    (h : ∀ l ≤ levels, Reaches l (.tier c.operand) (operand l)) :
    Reaches levels (.tier (.chain c)) (chain operand c.operators levels) := by
  intro s s' e t hr
  unfold chain at hr
  rw [bind_eq_error] at hr
  obtain hr | ⟨left, u, hleft, hr⟩ := hr
  · obtain ⟨pre, rfl, rfl, us, hpre, d, hd⟩ := h levels (Nat.le_refl _) hr
    exact ⟨pre, rfl, rfl, us, hpre, .chain (.first d), by simpa [Derivation.nesting] using hd⟩
  · obtain ⟨ts, d, rfl, rfl, hd⟩ := hs levels (Nat.le_refl _) hleft
    have hfirst : d.first.nesting ≤ 0 + levels := by simpa [Derivation.nesting] using hd
    obtain ⟨pre, rfl, rfl, m, ws, hpre, d', hn⟩ := chainFrom_reaches hs h d.first hfirst hr
    exact ⟨ts ++ pre, (TokenStream.prepend_append ..).symm, rfl, ws, hpre, d'.chain,
      by simpa [Derivation.nesting] using hn⟩

end Chains

/-! ## Arguments -/

section Tiers

variable {levels : Nat}

/-- The name that stands for a pending operand. -/
def pendingName : Token := bareToken .ident "x"

/-- The parenthesis that closes an open one. -/
def closingParenthesis : Token := bareToken .rparen ")"

theorem moreArguments_reaches (h : Reaches levels .expression (expression levels)) (count : Nat) :
    Reaches levels .furtherArguments (moreArguments expression levels count) := by
  induction count with
  | zero =>
    intro s s' e t hr
    cases hr
  | succ count ih =>
    intro s s' e t hr
    unfold moreArguments at hr
    rw [bind_eq_error] at hr
    obtain hr | ⟨found, u, hfound, hr⟩ := hr
    · exact absurd hr accept_ne_error
    · cases found with
      | none => cases hr
      | some comma =>
        obtain ⟨hcomma, rfl⟩ := accept_some hfound (by decide)
        replace hcomma : comma.kind = .comma := List.mem_singleton.1 hcomma
        rw [bind_eq_error] at hr
        obtain hr | ⟨head, v, hhead, hr⟩ := hr
        · obtain ⟨pre, rfl, rfl, ts, hpre, d, hd⟩ := h hr
          refine ⟨comma :: pre, (TokenStream.prepend_cons ..).symm, rfl, comma :: (ts ++ []), ?_,
            .nextArgument comma hcomma d .lastArgument, ?_⟩
          · exact List.cons_prefix_cons.2 ⟨rfl, hpre.trans (List.prefix_append _ _)⟩
          · simpa [Derivation.nesting] using hd
        · obtain ⟨ts, d, rfl, rfl, hd⟩ := expression_sound levels hhead
          rw [bind_eq_error] at hr
          obtain hr | ⟨_, _, -, hr⟩ := hr
          · obtain ⟨pre, rfl, rfl, us, hpre, ds, hds⟩ := ih hr
            refine ⟨comma :: (ts ++ pre), ?_, rfl, comma :: (ts ++ us), ?_,
              .nextArgument comma hcomma d ds, ?_⟩
            · simp [TokenStream.prepend]
            · exact List.cons_prefix_cons.2 ⟨rfl, (List.prefix_append_right_inj ts).2 hpre⟩
            · simp only [Derivation.nesting]
              omega
          · cases hr

theorem arguments_reaches (h : Reaches levels .expression (expression levels)) :
    Reaches levels .arguments (arguments expression levels) := by
  intro s s' e t hr
  unfold arguments at hr
  rw [bind_of_ok (current_apply s)] at hr
  split at hr
  · cases hr
  · rw [bind_eq_error] at hr
    obtain hr | ⟨head, u, hhead, hr⟩ := hr
    · obtain ⟨pre, rfl, rfl, ts, hpre, d, hd⟩ := h hr
      refine ⟨pre, rfl, rfl, ts ++ [], hpre.trans (List.prefix_append _ _),
        .someArguments d .lastArgument, ?_⟩
      simpa [Derivation.nesting] using hd
    · obtain ⟨ts, d, rfl, rfl, hd⟩ := expression_sound levels hhead
      rw [bind_of_ok (show remaining u = .ok u.ahead.length u from rfl)] at hr
      rw [bind_eq_error] at hr
      obtain hr | ⟨_, _, -, hr⟩ := hr
      · obtain ⟨pre, rfl, rfl, us, hpre, ds, hds⟩ := moreArguments_reaches h _ hr
        refine ⟨ts ++ pre, (TokenStream.prepend_append ..).symm, rfl, ts ++ us,
          (List.prefix_append_right_inj ts).2 hpre, .someArguments d ds, ?_⟩
        simp only [Derivation.nesting]
        omega
      · cases hr

/-! ## Primaries -/

theorem call_reaches (h : Reaches levels .expression (expression levels)) {callee : Token}
    (hn : callee.kind = .ident) {s s' : TokenStream} {n : Node} {e : SyntaxError} {t : Token}
    (hs : s.current.kind = .lparen)
    (hr : call expression n levels s = .error (.unexpected e t) s') :
    ∃ pre, s = s'.prepend pre ∧ t = s'.current ∧
      Begins levels (.tier .primary) (callee :: pre) := by
  unfold call at hr
  rw [bind_eq_error] at hr
  obtain hr | ⟨opening, u, hopening, hr⟩ := hr
  · cases hr
  · obtain ⟨rfl, hsu⟩ := advance_ok hopening (by simp [hs])
    rw [bind_eq_error] at hr
    obtain hr | ⟨ns, v, hns, hr⟩ := hr
    · obtain ⟨pre, rfl, rfl, ts, hpre, d, hd⟩ := arguments_reaches h hr
      refine ⟨s.current :: pre, hsu.trans (TokenStream.prepend_cons ..).symm, rfl, _, ?_,
        .call callee s.current closingParenthesis hn hs rfl d, hd⟩
      exact List.cons_prefix_cons.2 ⟨rfl, List.cons_prefix_cons.2
        ⟨rfl, hpre.trans (List.prefix_append _ _)⟩⟩
    · obtain ⟨ts, d, rfl, rfl, hd⟩ := arguments_sound (fun {_ _ _} => expression_sound levels) hns
      rw [bind_eq_error] at hr
      obtain hr | ⟨_, _, -, hr⟩ := hr
      · obtain ⟨rfl, hfault⟩ := expect_eq_error hr
        cases hfault
        refine ⟨s.current :: ts, hsu.trans (TokenStream.prepend_cons ..).symm, rfl, _, ?_,
          .call callee s.current closingParenthesis hn hs rfl d, hd⟩
        exact List.cons_prefix_cons.2 ⟨rfl, List.cons_prefix_cons.2
          ⟨rfl, List.prefix_append _ _⟩⟩
      · cases hr

/-- A primary in parentheses. -/
theorem group_reaches (h : Reaches levels .expression (expression levels)) {s s' : TokenStream}
    {e : SyntaxError} {t : Token} (hs : s.current.kind = .lparen)
    (hr : (do
      let _ ← advance
      let inner ← expression levels
      let close ← expect .rparen .closingParenthesis
      return inner.withSpan (s.current.span.merge close.span) : Reader Node) s =
        .error (.unexpected e t) s') :
    ∃ pre, s = s'.prepend pre ∧ t = s'.current ∧ Begins levels (.tier .primary) pre := by
  rw [bind_eq_error] at hr
  obtain hr | ⟨opening, u, hopening, hr⟩ := hr
  · cases hr
  · obtain ⟨rfl, hsu⟩ := advance_ok hopening (by simp [hs])
    rw [bind_eq_error] at hr
    obtain hr | ⟨inner, v, hinner, hr⟩ := hr
    · obtain ⟨pre, rfl, rfl, ts, hpre, d, hd⟩ := h hr
      refine ⟨s.current :: pre, hsu.trans (TokenStream.prepend_cons ..).symm, rfl, _, ?_,
        .group s.current closingParenthesis hs rfl d, hd⟩
      exact List.cons_prefix_cons.2 ⟨rfl, hpre.trans (List.prefix_append _ _)⟩
    · obtain ⟨ts, d, rfl, rfl, hd⟩ := expression_sound levels hinner
      rw [bind_eq_error] at hr
      obtain hr | ⟨_, _, -, hr⟩ := hr
      · obtain ⟨rfl, hfault⟩ := expect_eq_error hr
        cases hfault
        refine ⟨s.current :: ts, hsu.trans (TokenStream.prepend_cons ..).symm, rfl, _, ?_,
          .group s.current closingParenthesis hs rfl d, hd⟩
        exact List.cons_prefix_cons.2 ⟨rfl, List.prefix_append _ _⟩
      · cases hr

/-- A primary may begin where none does. -/
theorem begins_primary : Begins levels (.tier .primary) [] :=
  ⟨[pendingName], List.nil_prefix, .name pendingName rfl, Nat.zero_le _⟩

theorem primary_reaches (h : Reaches levels .expression (expression levels)) :
    Reaches levels (.tier .primary) (primary expression levels) := by
  intro s s' e t hr
  unfold primary at hr
  rw [bind_of_ok (current_apply s)] at hr
  cases hk : s.current.kind with
  | number | string | true | false =>
    rw [hk] at hr
    cases hr
  | ident =>
    rw [hk] at hr
    dsimp only at hr
    rw [bind_eq_error] at hr
    obtain hr | ⟨name, u, hname, hr⟩ := hr
    · cases hr
    · obtain ⟨rfl, hsu⟩ := advance_ok hname (by simp [hk])
      rw [bind_of_ok (current_apply u)] at hr
      split at hr
      · rename_i hparen
        obtain ⟨pre, rfl, rfl, hbegins⟩ := call_reaches h hk hparen hr
        exact ⟨s.current :: pre, hsu.trans (TokenStream.prepend_cons ..).symm, rfl, hbegins⟩
      · cases hr
  | lparen =>
    rw [hk] at hr
    exact group_reaches h hk hr
  | _ =>
    rw [hk] at hr
    cases hr
    exact ⟨[], rfl, rfl, begins_primary⟩

/-! ## Operators -/

theorem unary_reaches (h : Reaches levels .expression (expression levels)) :
    Reaches levels (.tier .unary) (unary expression levels) := by
  intro s s' e t hr
  unfold unary at hr
  rw [bind_eq_error] at hr
  obtain hr | ⟨found, u, hfound, hr⟩ := hr
  · exact absurd hr accept_ne_error
  · cases found with
    | none =>
      obtain ⟨-, rfl⟩ := accept_none hfound
      obtain ⟨pre, rfl, rfl, ts, hpre, d, hd⟩ := primary_reaches h hr
      exact ⟨pre, rfl, rfl, ts, hpre, d.plain, hd⟩
    | some operator =>
      obtain ⟨hop, rfl⟩ := accept_some hfound (by decide)
      dsimp only at hr
      rw [bind_eq_error] at hr
      obtain hr | ⟨_, _, -, hr⟩ := hr
      · obtain ⟨pre, rfl, rfl, ts, hpre, d, hd⟩ := primary_reaches h hr
        exact ⟨operator :: pre, (TokenStream.prepend_cons ..).symm, rfl, operator :: ts,
          List.cons_prefix_cons.2 ⟨rfl, hpre⟩, d.prefixed operator hop, hd⟩
      · cases hr

theorem additive_reaches (h : ∀ l ≤ levels, Reaches l .expression (expression l)) :
    Reaches levels (.tier (.chain .additive)) (additive expression levels) :=
  chain_reaches (c := .additive)
    (fun _ _ => chain_sound (c := .multiplicative) fun k _ => unary_sound (expression_sound k))
    fun _ hl => chain_reaches (c := .multiplicative) (fun k _ => unary_sound (expression_sound k))
      fun k hk => unary_reaches (h k (Nat.le_trans hk hl))

/-- A second comparison does not fit behind a first one, which is whole without it. -/
theorem comparison_reaches (h : ∀ l ≤ levels, Reaches l .expression (expression l)) :
    Reaches levels (.tier .comparison) (comparison expression levels) := by
  have hsound : Sound levels (.tier (.chain .additive)) (additive expression levels) :=
    additive_sound fun l _ => expression_sound l
  intro s s' e t hr
  unfold comparison at hr
  rw [bind_eq_error] at hr
  obtain hr | ⟨left, u, hleft, hr⟩ := hr
  · obtain ⟨pre, rfl, rfl, ts, hpre, d, hd⟩ := additive_reaches h hr
    exact ⟨pre, rfl, rfl, ts, hpre, d.uncompared, hd⟩
  · obtain ⟨ts, d, rfl, rfl, hd⟩ := hsound hleft
    rw [bind_eq_error] at hr
    obtain hr | ⟨found, v, hfound, hr⟩ := hr
    · exact absurd hr accept_ne_error
    · cases found with
      | none => cases hr
      | some operator =>
        obtain ⟨hop, rfl⟩ := accept_some hfound (by decide)
        dsimp only at hr
        rw [bind_eq_error] at hr
        obtain hr | ⟨right, w, hright, hr⟩ := hr
        · obtain ⟨pre, rfl, rfl, us, hpre, r, hrn⟩ := additive_reaches h hr
          refine ⟨ts ++ operator :: pre, by simp [TokenStream.prepend], rfl,
            ts ++ operator :: us, ?_, d.compared operator hop r, ?_⟩
          · exact (List.prefix_append_right_inj ts).2 (List.cons_prefix_cons.2 ⟨rfl, hpre⟩)
          · simp only [Derivation.nesting]
            omega
        · obtain ⟨us, r, rfl, rfl, hrn⟩ := hsound hright
          rw [bind_of_ok (current_apply w)] at hr
          split at hr
          · cases hr
            refine ⟨ts ++ operator :: us, by simp [TokenStream.prepend], rfl, _,
              List.prefix_rfl, d.compared operator hop r, ?_⟩
            simp only [Derivation.nesting]
            omega
          · cases hr

theorem disjunction_reaches (h : ∀ l ≤ levels, Reaches l .expression (expression l)) :
    Reaches levels (.tier (.chain .disjunction)) (disjunction expression levels) :=
  chain_reaches (c := .disjunction)
    (fun _ _ => chain_sound (c := .conjunction) fun _ _ =>
      comparison_sound fun l _ => expression_sound l)
    fun _ hl => chain_reaches (c := .conjunction)
      (fun _ _ => comparison_sound fun l _ => expression_sound l)
      fun _ hk => comparison_reaches fun j hj => h j (Nat.le_trans hj (Nat.le_trans hk hl))

end Tiers

/-- Where an expression misses something, the tokens up to there begin an expression that fits the
levels. -/
theorem expression_reaches (levels : Nat) : Reaches levels .expression (expression levels) := by
  induction levels using Nat.strongRecOn with
  | ind levels ih =>
    cases levels with
    | zero =>
      intro s s' e t hr
      cases hr
    | succ levels =>
      intro s s' e t hr
      rw [expression_succ] at hr
      obtain ⟨pre, rfl, rfl, ts, hpre, d, hd⟩ :=
        disjunction_reaches (fun l hl => ih l (Nat.lt_succ_of_le hl)) hr
      refine ⟨pre, rfl, rfl, ts, hpre, .expression d, ?_⟩
      simp only [Derivation.nesting]
      omega

/-! ## Statements -/

/-- The tokens are the first ones of a statement that fits the levels. -/
def BeginsClause (levels : Nat) (pre : List Token) : Prop :=
  ∃ ts, pre <+: ts ∧ ∃ c : Clause ts, c.nesting ≤ levels

section Statements

variable {levels : Nat} {s s' : TokenStream} {e : SyntaxError} {t : Token}

theorem terminator_unexpected {e' : SyntaxError} {n : Node}
    (h : (terminator e' >>= terminated n) s = .error (.unexpected e t) s') :
    s' = s ∧ t = s.current := by
  rw [bind_eq_error] at h
  obtain h | ⟨found, u, -, h⟩ := h
  · unfold terminator at h
    rw [bind_eq_error] at h
    obtain h | ⟨found, u, hfound, h⟩ := h
    · exact absurd h accept_ne_error
    · cases found with
      | some t => cases h
      | none =>
        obtain ⟨-, rfl⟩ := accept_none hfound
        dsimp only at h
        rw [bind_of_ok (current_apply u)] at h
        split at h
        · cases h
        · cases h
          exact ⟨rfl, rfl⟩
  · cases found with
    | none => cases h
    | some t =>
      cases hempty : t.span.isEmpty with
      | error e =>
        simp only [terminated, hempty] at h
        cases h
      | ok empty =>
        simp only [terminated, hempty] at h
        cases empty <;> cases h

/-- The shortest expression, in place of one that is pending. -/
def pendingExpression : Derivation .expression [pendingName] :=
  .expression (.chain (.first (nameOperand pendingName rfl)))

theorem declaration_reaches (hlevels : 0 < levels) (hs : s.current.kind = .var)
    (h : declaration levels s = .error (.unexpected e t) s') :
    ∃ pre, s = s'.prepend pre ∧ t = s'.current ∧ BeginsClause levels pre := by
  have hpending : pendingExpression.nesting ≤ levels := hlevels
  unfold declaration at h
  rw [bind_eq_error] at h
  obtain h | ⟨word, u, hword, h⟩ := h
  · cases h
  · obtain ⟨rfl, hsu⟩ := advance_ok hword (by simp [hs])
    rw [bind_eq_error] at h
    obtain h | ⟨name, v, hname, h⟩ := h
    · obtain ⟨rfl, hfault⟩ := expect_eq_error h
      cases hfault
      exact ⟨[s.current], hsu, rfl, _, ⟨_, rfl⟩, .declaration s.current pendingName
        (bareToken .equal "=") hs rfl rfl pendingExpression, hpending⟩
    · obtain ⟨hident, rfl⟩ := expect_ok hname (by decide)
      rw [bind_eq_error] at h
      obtain h | ⟨equal, w, hequal, h⟩ := h
      · obtain ⟨rfl, hfault⟩ := expect_eq_error h
        cases hfault
        exact ⟨[s.current, name], hsu, rfl, _, ⟨_, rfl⟩, .declaration s.current name
          (bareToken .equal "=") hs hident rfl pendingExpression, hpending⟩
      · obtain ⟨hsign, rfl⟩ := expect_ok hequal (by decide)
        rw [bind_eq_error] at h
        obtain h | ⟨_, _, -, h⟩ := h
        · obtain ⟨pre, rfl, rfl, ts, ⟨us, rfl⟩, d, hd⟩ := expression_reaches levels h
          exact ⟨s.current :: name :: equal :: pre, hsu.trans (by simp [TokenStream.prepend]), rfl,
            _, ⟨us, rfl⟩, .declaration s.current name equal hs hident hsign d, hd⟩
        · cases h

/-- Where a statement misses something, the tokens up to there begin a statement that fits the
levels. -/
theorem statement_reaches (hlevels : 0 < levels)
    (h : statement levels s = .error (.unexpected e t) s') :
    ∃ pre, s = s'.prepend pre ∧ t = s'.current ∧ BeginsClause levels pre := by
  by_cases hvar : s.current.kind = .var
  · rw [statement_of_var levels hvar, bind_eq_error] at h
    obtain h | ⟨n, u, hn, h⟩ := h
    · exact declaration_reaches hlevels hvar h
    · obtain ⟨ts, c, rfl, -, hc⟩ := declaration_sound hvar hn
      obtain ⟨rfl, rfl⟩ := terminator_unexpected h
      exact ⟨ts, rfl, rfl, ts, List.prefix_rfl, c, hc⟩
  · rw [statement_of_ne_var levels hvar, bind_eq_error] at h
    obtain h | ⟨n, u, hn, h⟩ := h
    · obtain ⟨pre, rfl, rfl, ts, hpre, d, hd⟩ := expression_reaches levels h
      exact ⟨pre, rfl, rfl, ts, hpre, .expression d, hd⟩
    · obtain ⟨ts, d, rfl, -, hd⟩ := expression_sound levels hn
      obtain ⟨rfl, rfl⟩ := terminator_unexpected h
      exact ⟨ts, rfl, rfl, ts, List.prefix_rfl, .expression d, hd⟩

end Statements

/-! ## Sources -/

/-- A source that begins with the tokens `ts` and with `t` behind them. -/
theorem exists_prepend_of_prefix {ts : List Token} {t : Token} {u : TokenStream}
    (h : ts ++ [t] <+: u.toList) : ∃ v : TokenStream, u = v.prepend ts ∧ v.current = t := by
  induction ts generalizing u with
  | nil =>
    refine ⟨u, rfl, ?_⟩
    obtain ⟨ahead, last, eof⟩ := u
    cases ahead with
    | nil => exact (List.cons_prefix_cons.1 h).1.symm
    | cons a rest => exact (List.cons_prefix_cons.1 h).1.symm
  | cons a ts ih =>
    obtain ⟨ahead, last, eof⟩ := u
    cases ahead with
    | nil =>
      have hlength := h.length_le
      simp [TokenStream.toList] at hlength
    | cons b rest =>
      obtain ⟨rfl, hrest⟩ := List.cons_prefix_cons.1 h
      obtain ⟨v, hv, hcurrent⟩ := ih (u := ⟨rest, last, eof⟩) hrest
      exact ⟨v, by rw [TokenStream.prepend_cons, ← hv]; rfl, hcurrent⟩

theorem dropped_prepend (ts : List Token) (s : TokenStream) :
    (s.prepend ts).dropped ts.length = s := by
  simp [TokenStream.dropped, TokenStream.prepend]

theorem getElem?_toList (s : TokenStream) : s.toList[0]? = some s.current := by
  obtain ⟨ahead, last, eof⟩ := s
  cases ahead <;> rfl

theorem take_one_toList (s : TokenStream) : s.toList.take 1 = [s.current] := by
  obtain ⟨ahead, last, eof⟩ := s
  cases ahead <;> rfl

/-- A statement with a token that does not fit is given up at the first token with which no
statement can begin: the tokens in front of it begin a statement that is read to its end, and every
source that begins with these and with the token itself is given up there as well. -/
theorem fault_earliest (o : Options) (hlevels : 1 ≤ o.levels) (s : TokenStream) (e : SyntaxError)
    (t : Token)
    (h : (Goal.statement.read o.levels s).outcome = .error (.unexpected e t)) :
    ∃ k, (Goal.statement.read o.levels s).rest = s.dropped k ∧ s.toList[k]? = some t ∧
      (∃ u : TokenStream, u.EndsOnce ∧ s.toList.take k <+: u.ahead ∧
        ∃ n, Goal.statement.read o.levels u = ⟨.ok (some n), [], u.atEnd⟩) ∧
      ∀ u : TokenStream, s.toList.take (k + 1) <+: u.toList →
        (Goal.statement.read o.levels u).outcome = .error (.unexpected e t) := by
  obtain ⟨s', hread⟩ : ∃ s', statement o.levels s = .error (.unexpected e t) s' := by
    change (Attempt.ofResult (statement o.levels s)).outcome = _ at h
    cases hr : statement o.levels s with
    | ok n rest =>
      rw [hr] at h
      cases h
    | error f rest =>
      rw [hr] at h
      cases h
      exact ⟨rest, rfl⟩
  obtain ⟨pre, rfl, rfl, ts, hpre, c, hc⟩ := statement_reaches hlevels hread
  refine ⟨pre.length, ?_, ?_, ⟨s'.atEnd.prepend ts, ?_, ?_, ?_⟩, ?_⟩
  · change (Attempt.ofResult (statement o.levels (s'.prepend pre))).rest = _
    rw [hread, dropped_prepend]
    rfl
  · rw [TokenStream.toList_prepend, List.getElem?_append_right (Nat.le_refl _), Nat.sub_self,
      getElem?_toList]
  · intro t ht
    rw [TokenStream.ahead_prepend, TokenStream.atEnd, List.append_nil] at ht
    exact c.ne_eof t ht
  · rw [TokenStream.toList_prepend, List.take_left]
    exact hpre.trans (List.prefix_append _ _)
  · exact ⟨c.value, congrArg Attempt.ofResult (c.read_atEnd hc s')⟩
  · intro u hu
    rw [TokenStream.toList_prepend, List.take_length_add_append, take_one_toList] at hu
    obtain ⟨v, rfl, hcurrent⟩ := exists_prepend_of_prefix hu
    change (Attempt.ofResult (statement o.levels (v.prepend pre))).outcome = _
    rw [(statement_looks _).same_error hread hcurrent]
    rfl

/-- The tokens of `(a b`. -/
def unclosed : TokenStream :=
  emptyStream.prepend [bareToken .lparen "(", bareToken .ident "a", bareToken .ident "b"]

/-- The second name in `(a b` is where the parenthesis should be closed; up to there, a statement
may still follow. -/
theorem fault_earliest_unclosed :
    ∃ k, (Goal.statement.read 2 unclosed).rest = unclosed.dropped k ∧
      unclosed.toList[k]? = some (bareToken .ident "b") ∧
      ∃ u : TokenStream, u.EndsOnce ∧ unclosed.toList.take k <+: u.ahead ∧
        ∃ n, Goal.statement.read 2 u = ⟨.ok (some n), [], u.atEnd⟩ := by
  obtain ⟨k, hrest, htoken, haccepted, -⟩ := fault_earliest { maxDepth := .int 2 } (by decide)
    unclosed .closingParenthesis (bareToken .ident "b") (by cbv)
  exact ⟨k, hrest, htoken, haccepted⟩

end RuleLang.Grammar
