import Mathlib.Data.List.Forall2
import RuleLang.Proofs.Grammar.Alike
import RuleLang.Proofs.Grammar.Clauses
import RuleLang.Proofs.Node.Conveyed

/-!
Reading what was printed to a file. No phrase depends on how its literals are spelled, so that
tokens that differ in their literals only are derived in the same way
(`Derivation.exists_conveyed`), and a source that is read without faults is read again as the same
statements with other literals (`statements_conveyed`).
-/
namespace RuleLang

/-- The kinds of tokens whose lexeme matters: names, operators and punctuation. -/
def Token.Kind.IsSpelled (k : Kind) : Prop := k ≠ .number ∧ k ≠ .string ∧ k ≠ .invalid ∧ k ≠ .eof

instance (k : Token.Kind) : Decidable k.IsSpelled := inferInstanceAs (Decidable (_ ∧ _))

/-- The token `u` is what is read of the token `t`, wherever it stands. -/
structure Token.Conveyed (u t : Token) : Prop where
  kind : u.kind = t.kind
  value : u.value = t.value.conveyed
  lexeme : t.kind.IsSpelled → u.lexeme = t.lexeme

/-- Names, operators and punctuation are made of plain characters. -/
theorem plain_of_isSpelled {t : Token} (h : t.word.WellMade) (hk : t.kind.IsSpelled) :
    Text.Plain t.lexeme.toList := by
  have hall : ∀ k ∈ Token.Kind.all, k.IsSpelled → k = .ident ∨
      k ∈ Token.Kind.spellings.map Prod.snd := by decide
  obtain hident | hfixed := hall _ (Token.Kind.mem_all t.kind) hk
  · have hname : IsName t.lexeme := by simpa [Token.word] using h.name hident
    exact hname.plain
  · have hmem : (t.lexeme, t.kind) ∈ Token.Kind.spellings := by
      simpa [Token.word] using h.fixed hfixed
    exact plain_of_spelling hmem

/-- Tokens with the words of others as they are read. -/
theorem Token.forall₂_conveyed {us ts : List Token}
    (h : us.map word = ts.map fun t => t.word.conveyed) (hts : ∀ t ∈ ts, t.word.WellMade) :
    List.Forall₂ Conveyed us ts := by
  induction us generalizing ts with
  | nil =>
    obtain rfl := List.map_eq_nil_iff.1 h.symm
    exact .nil
  | cons u us ih =>
    obtain ⟨t, ts, rfl, hword, hwords⟩ := List.map_eq_cons_iff.1 h.symm
    obtain ⟨ht, hts⟩ := List.forall_mem_cons.1 hts
    refine .cons ⟨congrArg Word.kind hword.symm, congrArg Word.value hword.symm, fun hk => ?_⟩
      (ih hwords.symm hts)
    have hlexeme : t.word.conveyed.lexeme = t.lexeme.toList :=
      Text.conveyed_of_plain (plain_of_isSpelled ht hk)
    exact String.toList_inj.1 ((congrArg Word.lexeme hword).symm.trans hlexeme)

namespace Grammar

open Reader

/-- The trees are those of the given phrase as it is read, but for their places. -/
def IsConveyed : (y : Nonterminal) → y.Value → y.Value → Prop
  | .expression, m, n => m.bare = n.conveyed.bare
  | .tier _, m, n => m.bare = n.conveyed.bare
  | .folded _ _, m, n => m.bare = n.conveyed.bare
  | .arguments, ms, ns => ms.map Node.bare = ns.map fun n => n.conveyed.bare
  | .furtherArguments, ms, ns => ms.map Node.bare = ns.map fun n => n.conveyed.bare

theorem exists_of_forall₂_append {us ts ts' : List Token}
    (h : List.Forall₂ Token.Conveyed us (ts ++ ts')) :
    ∃ vs vs', us = vs ++ vs' ∧ List.Forall₂ Token.Conveyed vs ts ∧
      List.Forall₂ Token.Conveyed vs' ts' :=
  ⟨_, _, (List.take_append_drop _ us).symm, List.forall₂_take_append us ts ts' h,
    List.forall₂_drop_append us ts ts' h⟩

theorem isSpelled_of_operator {c : Chain} {k : Token.Kind} (h : k ∈ c.operators) :
    k.IsSpelled := by
  have hall : ∀ k ∈ c.operators, k.IsSpelled := by
    cases c <;> decide
  exact hall k h

theorem isSpelled_of_comparison {k : Token.Kind} (h : k ∈ Token.Kind.comparisons) :
    k.IsSpelled := by
  have hall : ∀ k ∈ Token.Kind.comparisons, k.IsSpelled := by decide
  exact hall k h

theorem isSpelled_of_sign {k : Token.Kind} (h : k ∈ [Token.Kind.minus, .bang]) :
    k.IsSpelled := by
  have hall : ∀ k ∈ [Token.Kind.minus, .bang], k.IsSpelled := by decide
  exact hall k h

theorem bare_binary {u t : Token} {l l' r r' : Node} (ht : u.Conveyed t) (hk : t.kind.IsSpelled)
    (hl : l.bare = l'.conveyed.bare) (hr : r.bare = r'.conveyed.bare) :
    (binary u l r).bare = (binary t l' r').conveyed.bare := by
  simp only [binary, Node.bare, Node.conveyed, ht.lexeme hk, hl, hr]

/-- Tokens that differ in their literals only are derived in the same way. -/
theorem Derivation.exists_conveyed {y : Nonterminal} {ts us : List Token} (d : Derivation y ts)
    (h : List.Forall₂ Token.Conveyed us ts) :
    ∃ d' : Derivation y us, IsConveyed y d'.value d.value ∧ d'.nesting = d.nesting := by
  induction d generalizing us with
  | expression body ih =>
    obtain ⟨d, hv, hn⟩ := ih h
    exact ⟨.expression d, hv, congrArg (1 + ·) hn⟩
  | chain operands ih =>
    obtain ⟨d, hv, hn⟩ := ih h
    exact ⟨.chain d, hv, hn⟩
  | first operand ih =>
    obtain ⟨d, hv, hn⟩ := ih h
    exact ⟨.first d, hv, hn⟩
  | fold left operator hop right ihl ihr =>
    obtain ⟨vs, ws, rfl, hleft, hrest⟩ := exists_of_forall₂_append h
    obtain ⟨u, ws, ht, hright, rfl⟩ := List.forall₂_cons_right_iff.1 hrest
    obtain ⟨l, hl, hln⟩ := ihl hleft
    obtain ⟨r, hr, hrn⟩ := ihr hright
    have hk : operator.kind.IsSpelled := isSpelled_of_operator hop
    refine ⟨.fold l u (ht.kind ▸ hop) r, bare_binary ht hk hl hr, ?_⟩
    simp only [Derivation.nesting, hln, hrn]
  | uncompared side ih =>
    obtain ⟨d, hv, hn⟩ := ih h
    exact ⟨.uncompared d, hv, hn⟩
  | compared left operator hop right ihl ihr =>
    obtain ⟨vs, ws, rfl, hleft, hrest⟩ := exists_of_forall₂_append h
    obtain ⟨u, ws, ht, hright, rfl⟩ := List.forall₂_cons_right_iff.1 hrest
    obtain ⟨l, hl, hln⟩ := ihl hleft
    obtain ⟨r, hr, hrn⟩ := ihr hright
    have hk : operator.kind.IsSpelled := isSpelled_of_comparison hop
    refine ⟨.compared l u (ht.kind ▸ hop) r, bare_binary ht hk hl hr, ?_⟩
    simp only [Derivation.nesting, hln, hrn]
  | plain operand ih =>
    obtain ⟨d, hv, hn⟩ := ih h
    exact ⟨.plain d, hv, hn⟩
  | prefixed operator hop operand ih =>
    obtain ⟨u, ws, ht, hoperand, rfl⟩ := List.forall₂_cons_right_iff.1 h
    obtain ⟨d, hv, hn⟩ := ih hoperand
    have hk : operator.kind.IsSpelled := isSpelled_of_sign hop
    refine ⟨.prefixed u (ht.kind ▸ hop) d, ?_, hn⟩
    simp only [IsConveyed, Derivation.value, Node.bare, Node.conveyed, ht.lexeme hk,
      show d.value.bare = _ from hv]
  | literal t ht =>
    obtain ⟨u, ws, hu, hnil, rfl⟩ := List.forall₂_cons_right_iff.1 h
    cases hnil
    refine ⟨.literal u (hu.kind ▸ ht), ?_, rfl⟩
    simp only [IsConveyed, Derivation.value, Node.bare, Node.conveyed, hu.value]
  | truth t ht =>
    obtain ⟨u, ws, hu, hnil, rfl⟩ := List.forall₂_cons_right_iff.1 h
    cases hnil
    exact ⟨.truth u (hu.kind ▸ ht), rfl, rfl⟩
  | falsehood t ht =>
    obtain ⟨u, ws, hu, hnil, rfl⟩ := List.forall₂_cons_right_iff.1 h
    cases hnil
    exact ⟨.falsehood u (hu.kind ▸ ht), rfl, rfl⟩
  | name t ht =>
    obtain ⟨u, ws, hu, hnil, rfl⟩ := List.forall₂_cons_right_iff.1 h
    cases hnil
    refine ⟨.name u (hu.kind ▸ ht), ?_, rfl⟩
    simp only [IsConveyed, Derivation.value, Node.bare, Node.conveyed,
      hu.lexeme (by rw [ht]; decide)]
  | call callee opening closing hn ho hc inner ih =>
    obtain ⟨u, tail, hcallee, htail, rfl⟩ := List.forall₂_cons_right_iff.1 h
    obtain ⟨v, rest, hopening, hrest, rfl⟩ := List.forall₂_cons_right_iff.1 htail
    obtain ⟨vs, ws, rfl, hinner, hlast⟩ := exists_of_forall₂_append hrest
    obtain ⟨w, ws, hclosing, hnil, rfl⟩ := List.forall₂_cons_right_iff.1 hlast
    cases hnil
    obtain ⟨d, hv, hnesting⟩ := ih hinner
    refine ⟨.call u v w (hcallee.kind.trans hn) (hopening.kind.trans ho) (hclosing.kind.trans hc) d,
      ?_, hnesting⟩
    simp only [IsConveyed, Derivation.value, Node.bare, Node.conveyed, Node.bares_eq_map,
      Node.conveyeds_eq_map, List.map_map, Function.comp_def,
      hcallee.lexeme (by rw [hn]; decide), show List.map _ _ = List.map _ _ from hv]
  | group opening closing ho hc inner ih =>
    obtain ⟨v, rest, hopening, hrest, rfl⟩ := List.forall₂_cons_right_iff.1 h
    obtain ⟨vs, ws, rfl, hinner, hlast⟩ := exists_of_forall₂_append hrest
    obtain ⟨w, ws, hclosing, hnil, rfl⟩ := List.forall₂_cons_right_iff.1 hlast
    cases hnil
    obtain ⟨d, hv, hnesting⟩ := ih hinner
    refine ⟨.group v w (hopening.kind.trans ho) (hclosing.kind.trans hc) d, ?_, hnesting⟩
    simp only [IsConveyed, Derivation.value, Node.bare_withSpan, Node.conveyed_withSpan]
    exact hv
  | noArguments =>
    cases h
    exact ⟨.noArguments, rfl, rfl⟩
  | someArguments head further ihh ihf =>
    obtain ⟨vs, ws, rfl, hhead, hfurther⟩ := exists_of_forall₂_append h
    obtain ⟨d, hv, hn⟩ := ihh hhead
    obtain ⟨ds, hvs, hns⟩ := ihf hfurther
    refine ⟨.someArguments d ds, List.cons_eq_cons.2 ⟨hv, hvs⟩, ?_⟩
    simp only [Derivation.nesting, hn, hns]
  | lastArgument =>
    cases h
    exact ⟨.lastArgument, rfl, rfl⟩
  | nextArgument comma hcomma head further ihh ihf =>
    obtain ⟨u, rest, hu, hrest, rfl⟩ := List.forall₂_cons_right_iff.1 h
    obtain ⟨vs, ws, rfl, hhead, hfurther⟩ := exists_of_forall₂_append hrest
    obtain ⟨d, hv, hn⟩ := ihh hhead
    obtain ⟨ds, hvs, hns⟩ := ihf hfurther
    refine ⟨.nextArgument u (hu.kind.trans hcomma) d ds, List.cons_eq_cons.2 ⟨hv, hvs⟩, ?_⟩
    simp only [Derivation.nesting, hn, hns]

/-- So are statements without their terminators. -/
theorem Clause.exists_conveyed {ts us : List Token} (c : Clause ts)
    (h : List.Forall₂ Token.Conveyed us ts) :
    ∃ c' : Clause us, c'.value.bare = c.value.conveyed.bare ∧ c'.nesting = c.nesting := by
  cases c with
  | expression d =>
    obtain ⟨d', hv, hn⟩ := d.exists_conveyed h
    refine ⟨.expression d', ?_, hn⟩
    simp only [Clause.value, Node.bare, Node.conveyed, show d'.value.bare = _ from hv]
  | declaration word name equal hword hname hequal d =>
    obtain ⟨u, tail, hu, htail, rfl⟩ := List.forall₂_cons_right_iff.1 h
    obtain ⟨v, rest, hv, hrest, rfl⟩ := List.forall₂_cons_right_iff.1 htail
    obtain ⟨w, vs, hw, hinitializer, rfl⟩ := List.forall₂_cons_right_iff.1 hrest
    obtain ⟨d', hvalue, hn⟩ := d.exists_conveyed hinitializer
    refine ⟨.declaration u v w (hu.kind.trans hword) (hv.kind.trans hname) (hw.kind.trans hequal)
      d', ?_, hn⟩
    simp only [Clause.value, Node.bare, Node.conveyed, hv.lexeme (by rw [hname]; decide),
      show d'.value.bare = _ from hvalue]

/-! ## Statements -/

section Statements

variable {levels : Nat} {s s' : TokenStream}

/-- A clause is read with its terminator, which may only widen its place. -/
theorem Clause.read_terminated {ts : List Token} (c : Clause ts) (hc : c.nesting ≤ levels)
    {stop : Option Token} (hstop : ∀ t ∈ stop, t.kind = .semicolon ∧ t.Full)
    (hend : stop = none → s.current.kind = .eof) :
    ∃ n, statement levels (s.prepend (ts ++ stop.toList)) = .ok n s ∧ n.bare = c.value.bare := by
  cases stop with
  | none =>
    obtain ⟨e, hread⟩ := c.read_prepend hc (.inr (hend rfl))
    refine ⟨c.value, ?_, rfl⟩
    rw [Option.toList_none, List.append_nil, hread, bind_of_ok (terminator_eof (hend rfl) e),
      advance_eq_self (hend rfl)]
    rfl
  | some t =>
    obtain ⟨hkind, hfull⟩ := hstop t rfl
    have hcurrent : (s.prepend [t]).current.kind = .semicolon := hkind
    obtain ⟨e, hread⟩ := c.read_prepend hc (.inl hcurrent)
    refine ⟨c.value.withSpan (c.value.span.merge t.span), ?_, Node.bare_withSpan _ _⟩
    rw [Option.toList_some, TokenStream.prepend_append, hread,
      bind_of_ok (terminator_semicolon hcurrent e),
      TokenStream.advance_prepend_cons (by simp [hkind])]
    simp only [terminated, TokenStream.current_prepend_cons, hfull hkind]
    rfl

theorem kind_current (h : List.Forall₂ Token.Conveyed s'.ahead s.ahead) :
    s'.current.kind = s.current.kind := by
  obtain ⟨ahead, last, eof⟩ := s
  obtain ⟨ahead', last', eof'⟩ := s'
  cases h with
  | nil => exact eof'.trans eof.symm
  | cons ht => exact ht.kind

/-- The tokens that are read of a terminator are one again. -/
theorem exists_terminator {stop : Option Token} {us : List Token}
    (h : List.Forall₂ Token.Conveyed us stop.toList) (hstop : ∀ t ∈ stop, t.kind = .semicolon) :
    ∃ stop' : Option Token, us = stop'.toList ∧ (∀ u ∈ stop', u.kind = .semicolon) ∧
      (stop' = none → stop = none) := by
  cases stop with
  | none =>
    rw [Option.toList_none, List.forall₂_nil_right_iff] at h
    exact ⟨none, h, fun _ hu => absurd hu (Option.not_mem_none _), fun _ => rfl⟩
  | some t =>
    rw [Option.toList_some, List.forall₂_cons_right_iff] at h
    obtain ⟨u, us, hu, hnil, rfl⟩ := h
    rw [List.forall₂_nil_right_iff] at hnil
    refine ⟨some u, congrArg _ hnil, fun v hv => ?_, fun hnone => absurd hnone (by simp)⟩
    exact Option.mem_some.1 hv ▸ hu.kind.trans (hstop t rfl)

/-- A statement that is read is read again with its literals as they are read. -/
theorem statement_conveyed {n : Node} {rest : TokenStream} (hread : statement levels s = .ok n rest)
    (h : List.Forall₂ Token.Conveyed s'.ahead s.ahead) (hfull : ∀ t ∈ s'.ahead, t.Full) :
    ∃ n' rest' ts us, statement levels s' = .ok n' rest' ∧ n'.bare = n.conveyed.bare ∧
      List.Forall₂ Token.Conveyed rest'.ahead rest.ahead ∧ s = rest.prepend ts ∧
        s' = rest'.prepend us := by
  obtain ⟨ts, c, hc, stop, rfl, hstop, hend, hvalue⟩ := statement_terminated hread
  rw [TokenStream.ahead_prepend, List.append_assoc] at h
  obtain ⟨us, more, hus, hclause, hmore⟩ := exists_of_forall₂_append h
  obtain ⟨vs, ws, rfl, hstops, hrest⟩ := exists_of_forall₂_append hmore
  obtain ⟨c', hbare, hnesting⟩ := c.exists_conveyed hclause
  obtain ⟨stop', rfl, hstop', hnone⟩ := exists_terminator hstops hstop
  obtain ⟨rest', rfl, hmore⟩ : ∃ rest' : TokenStream, s' = rest'.prepend (us ++ stop'.toList) ∧
      rest'.ahead = ws := by
    refine ⟨s'.atEnd.prepend ws, ?_, by simp [TokenStream.atEnd]⟩
    rw [← TokenStream.prepend_append, List.append_assoc, ← hus, TokenStream.prepend_ahead]
  have hfull' : ∀ t ∈ stop', t.kind = .semicolon ∧ t.Full := fun t ht =>
    ⟨hstop' t ht, hfull t (by simp [Option.mem_def.1 ht])⟩
  have hend' : stop' = none → rest'.current.kind = .eof := by
    intro hnone'
    rw [kind_current (hmore ▸ hrest)]
    exact hend (hnone hnone')
  obtain ⟨n', hread', hbare'⟩ := c'.read_terminated (hnesting.trans_le hc) hfull' hend'
  refine ⟨n', rest', _, _, hread', hbare'.trans (hbare.trans ?_), hmore ▸ hrest, rfl, rfl⟩
  obtain rfl | ⟨span, rfl⟩ := (terminated_ok hvalue).2
  · rfl
  · rw [Node.conveyed_withSpan, Node.bare_withSpan]

/-- A source that is read without faults is read again as the same statements with their literals as
they are read. -/
theorem statements_conveyed {count : Nat}
    (h : List.Forall₂ Token.Conveyed s'.ahead s.ahead) (hfull : ∀ t ∈ s'.ahead, t.Full)
    (hfaults : (statements levels count s).faults = []) :
    (statements levels count s').faults = [] ∧
      (statements levels count s').nodes.map Node.bare =
        (statements levels count s).nodes.map fun n => n.conveyed.bare := by
  induction count generalizing s s' with
  | zero => exact ⟨rfl, rfl⟩
  | succ count ih =>
    unfold statements at hfaults ⊢
    rw [kind_current h]
    by_cases heof : s.current.kind = .eof
    · rw [if_pos heof, if_pos heof]
      exact ⟨rfl, rfl⟩
    · rw [if_neg heof] at hfaults ⊢
      rw [if_neg heof]
      cases hread : statement levels s with
      | error fault rest =>
        simp only [hread] at hfaults
        split at hfaults <;> cases hfaults
      | ok n rest =>
        obtain ⟨n', rest', ts, us, hread', hbare, hmore, rfl, rfl⟩ :=
          statement_conveyed hread h hfull
        simp only [hread] at hfaults
        obtain ⟨hagain, hnodes⟩ := ih hmore
          (fun t ht => hfull t (List.mem_append_right _ ht)) hfaults
        simp only [hread']
        exact ⟨hagain, List.cons_eq_cons.2 ⟨hbare, hnodes⟩⟩

end Statements

end Grammar

end RuleLang
