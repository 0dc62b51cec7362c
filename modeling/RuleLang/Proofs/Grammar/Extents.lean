import RuleLang.Proofs.Grammar.Phrases

/-!
The extents of trees. Tokens that stand one behind the other give a phrase the extent from its first
token through its last one (`covers_phrase`), and what is below a node lies within it, one behind
the other (`nested_phrase`).
-/
namespace RuleLang

namespace Span

/-- The span from where one begins to where another one ends. -/
def through (s t : Span) : Span :=
  { s with stop := t.stop, stopLine := t.stopLine, stopColumn := t.stopColumn }

@[simp] theorem through_self (s : Span) : s.through s = s := rfl

theorem merge_eq_through {s t : Span} (hstart : s.start ≤ t.start) (hstop : s.stop < t.stop) :
    s.merge t = s.through t := by
  simp only [merge, if_pos hstart, if_neg (Int.not_le.2 hstop)]
  rfl

end Span

namespace Grammar

/-! ## Tokens in order -/

/-- The tokens stand one behind the other, and none of them is empty. -/
structure InOrder (ts : List Token) : Prop where
  nonempty : ∀ t ∈ ts, t.span.start < t.span.stop
  behind : ts.Pairwise fun t u => t.span.stop ≤ u.span.start

/-- The extent from the first token through the last one. -/
def Covers (ts : List Token) (span : Span) : Prop :=
  ∃ first ∈ ts.head?, ∃ last ∈ ts.getLast?, span = first.span.through last.span

/-- The node begins with one of the tokens and ends with one of them. -/
def Among (ts : List Token) (n : Node) : Prop :=
  ∃ t ∈ ts, ∃ u ∈ ts, n.span.start = t.span.start ∧ n.span.stop = u.span.stop

/-- The nodes are among the tokens, one behind the other. -/
structure Arranged (ts : List Token) (ns : List Node) : Prop where
  among : ∀ n ∈ ns, Among ts n
  behind : ns.Pairwise fun n m => n.span.stop ≤ m.span.start

section Order

variable {ts us : List Token} {s t : Span} {n : Node} {ns ms : List Node}

theorem InOrder.sublist (h : InOrder ts) (hs : us.Sublist ts) : InOrder us :=
  ⟨fun t ht => h.nonempty t (hs.subset ht), h.behind.sublist hs⟩

theorem InOrder.left (h : InOrder (ts ++ us)) : InOrder ts :=
  h.sublist (List.sublist_append_left ts us)

theorem InOrder.right (h : InOrder (ts ++ us)) : InOrder us :=
  h.sublist (List.sublist_append_right ts us)

theorem InOrder.append_behind (h : InOrder (ts ++ us)) :
    ∀ t ∈ ts, ∀ u ∈ us, t.span.stop ≤ u.span.start :=
  (List.pairwise_append.1 h.behind).2.2

/-- No token begins in front of the first one. -/
theorem InOrder.first_le (h : InOrder ts) {first t : Token} (hfirst : first ∈ ts.head?)
    (ht : t ∈ ts) : first.span.start ≤ t.span.start := by
  obtain ⟨tail, rfl⟩ := List.head?_eq_some_iff.1 hfirst
  obtain rfl | ht := List.mem_cons.1 ht
  · exact Int.le_refl _
  · have := h.nonempty first List.mem_cons_self
    have := List.rel_of_pairwise_cons h.behind ht
    omega

/-- No token ends behind the last one. -/
theorem InOrder.le_last (h : InOrder ts) {last t : Token} (hlast : last ∈ ts.getLast?)
    (ht : t ∈ ts) : t.span.stop ≤ last.span.stop := by
  obtain ⟨front, rfl⟩ := List.getLast?_eq_some_iff.1 hlast
  obtain ht | ht := List.mem_append.1 ht
  · have := h.nonempty last (by simp)
    have := h.append_behind t ht last List.mem_cons_self
    omega
  · obtain rfl := List.mem_singleton.1 ht
    exact Int.le_refl _

theorem covers_singleton (t : Token) : Covers [t] t.span :=
  ⟨t, rfl, t, rfl, (Span.through_self _).symm⟩

/-- The extents of two lists of tokens merge to that of both and of what is between them. -/
theorem Covers.merge (mid : List Token) (h : InOrder (ts ++ (mid ++ us))) (hs : Covers ts s)
    (ht : Covers us t) : Covers (ts ++ (mid ++ us)) (s.merge t) := by
  obtain ⟨a, ha, b, hb, rfl⟩ := hs
  obtain ⟨c, hc, d, hd, rfl⟩ := ht
  have hbmem := List.mem_of_getLast? hb
  have hcmem := List.mem_of_head? hc
  refine ⟨a, by simp [List.head?_append, Option.mem_def.1 ha], d,
    by simp [List.getLast?_append, Option.mem_def.1 hd], ?_⟩
  have hbefore := h.append_behind b hbmem c (List.mem_append_right _ hcmem)
  have hfirst := h.left.first_le ha hbmem
  have hb := h.left.nonempty b hbmem
  have hc := h.right.right.nonempty c hcmem
  have hlast := h.right.right.le_last hd hcmem
  have hstart : a.span.start ≤ c.span.start := by omega
  have hstop : b.span.stop < d.span.stop := by omega
  exact Span.merge_eq_through hstart hstop

theorem Covers.among (h : Covers ts n.span) : Among ts n := by
  obtain ⟨first, hfirst, last, hlast, hspan⟩ := h
  refine ⟨first, List.mem_of_head? hfirst, last, List.mem_of_getLast? hlast, ?_⟩
  rw [hspan]
  exact ⟨rfl, rfl⟩

theorem Arranged.nil (ts : List Token) : Arranged ts [] := ⟨nofun, .nil⟩

theorem Covers.arranged (h : Covers ts n.span) : Arranged ts [n] :=
  ⟨List.forall_mem_singleton.2 h.among, List.pairwise_singleton _ _⟩

theorem Arranged.mono (h : Arranged ts ns) (hs : ts ⊆ us) : Arranged us ns := by
  refine ⟨fun n hn => ?_, h.behind⟩
  obtain ⟨t, ht, u, hu, hplace⟩ := h.among n hn
  exact ⟨t, hs ht, u, hs hu, hplace⟩

theorem Arranged.append (h : InOrder (ts ++ us)) (hns : Arranged ts ns) (hms : Arranged us ms) :
    Arranged (ts ++ us) (ns ++ ms) := by
  refine ⟨List.forall_mem_append.2 ⟨?_, ?_⟩, List.pairwise_append.2
    ⟨hns.behind, hms.behind, fun n hn m hm => ?_⟩⟩
  · exact (hns.mono (List.subset_append_left ts us)).among
  · exact (hms.mono (List.subset_append_right ts us)).among
  · obtain ⟨-, -, t, ht, -, hstop⟩ := hns.among n hn
    obtain ⟨u, hu, -, -, hstart, -⟩ := hms.among m hm
    rw [hstop, hstart]
    exact h.append_behind t ht u hu

/-- The children of a node that covers the tokens they are among lie within it. -/
theorem nested_of_covers (h : InOrder ts) (hn : Covers ts n.span) (hc : Arranged ts n.children) :
    n.Nested := by
  obtain ⟨first, hfirst, last, hlast, hspan⟩ := hn
  have hstart : n.span.start = first.span.start := by rw [hspan]; rfl
  have hstop : n.span.stop = last.span.stop := by rw [hspan]; rfl
  have hmem := List.mem_of_head? hfirst
  refine ⟨?_, fun c hchild => ?_, hc.behind⟩
  · have := h.nonempty first hmem
    have := h.le_last hlast hmem
    omega
  · obtain ⟨t, ht, u, hu, hcstart, hcstop⟩ := hc.among c hchild
    have := h.first_le hfirst ht
    have := h.le_last hlast hu
    omega

end Order

/-! ## Trees -/

/-- A tree covers its tokens, and its children are arranged among them; so are arguments. -/
def IsPlaced : (y : Nonterminal) → List Token → y.Value → Prop
  | .expression, ts, n | .tier _, ts, n | .folded _ _, ts, n =>
    Covers ts n.span ∧ Arranged ts n.children
  | .arguments, ts, ns | .furtherArguments, ts, ns => Arranged ts ns

/-- An operation covers its operands and what is between them. -/
theorem placed_binary {ts us : List Token} {left right : Node} {operator : Token}
    (h : InOrder (ts ++ operator :: us)) (hl : Covers ts left.span) (hr : Covers us right.span) :
    Covers (ts ++ operator :: us) (left.span.merge right.span) ∧
      Arranged (ts ++ operator :: us) [left, right] :=
  ⟨hl.merge [operator] h hr,
    hl.arranged.append h (hr.arranged.mono (List.subset_cons_self operator us))⟩

theorem isPlaced_value {y : Nonterminal} {ts : List Token} (d : Derivation y ts) (h : InOrder ts) :
    IsPlaced y ts d.value := by
  induction d with
  | expression body ih => exact ih h
  | chain operands ih => exact ih h
  | first operand ih => exact ih h
  | uncompared side ih => exact ih h
  | plain operand ih => exact ih h
  | fold left operator hop right ihl ihr =>
    exact placed_binary h (ihl h.left).1 (ihr (h.right.sublist (List.sublist_cons_self ..))).1
  | compared left operator hop right ihl ihr =>
    exact placed_binary h (ihl h.left).1 (ihr (h.right.sublist (List.sublist_cons_self ..))).1
  | @prefixed ts operator hop operand ih =>
    have hoperand := (ih (h.sublist (List.sublist_cons_self ..))).1
    exact ⟨(covers_singleton operator).merge [] h hoperand,
      hoperand.arranged.mono (List.subset_cons_self ..)⟩
  | literal t | truth t | falsehood t | name t => exact ⟨covers_singleton t, .nil _⟩
  | @call ts callee opening closing hn ho hc inner ih =>
    have hargs : InOrder ([callee, opening] ++ (ts ++ [closing])) := h
    have hname : Arranged [callee] [.identifier callee.lexeme callee.span] :=
      Covers.arranged (covers_singleton callee)
    exact ⟨(covers_singleton callee).merge (opening :: ts) h (covers_singleton closing),
      hname.append h ((ih hargs.right.left).mono fun t ht => by simp [ht])⟩
  | @group ts opening closing ho hc inner ih =>
    have hinner : InOrder ([opening] ++ (ts ++ [closing])) := h
    obtain ⟨-, hchildren⟩ := ih hinner.right.left
    simp only [IsPlaced, Derivation.value, Node.span_withSpan, Node.children_withSpan]
    exact ⟨(covers_singleton opening).merge ts h (covers_singleton closing),
      hchildren.mono fun t ht => by simp [ht]⟩
  | noArguments | lastArgument => exact .nil _
  | someArguments head further ihh ihf =>
    exact (ihh h.left).1.arranged.append h (ihf h.right)
  | nextArgument comma hcomma head further ihh ihf =>
    have hboth := h.sublist (List.sublist_cons_self ..)
    exact ((ihh hboth.left).1.arranged.append hboth (ihf hboth.right)).mono
      (List.subset_cons_self ..)

theorem placed_clause {ts : List Token} (c : Clause ts) (h : InOrder ts) :
    Covers ts c.value.span ∧ Arranged ts c.value.children := by
  cases c with
  | expression d =>
    have hd := (isPlaced_value d h).1
    exact ⟨hd, hd.arranged⟩
  | @declaration ts word name equal hword hname hequal d =>
    have hall : InOrder ([word, name, equal] ++ ts) := h
    have hd := (isPlaced_value d hall.right).1
    refine ⟨(covers_singleton word).merge [name, equal] h hd, ?_⟩
    have hname : Arranged [word, name, equal] [.identifier name.lexeme name.span] :=
      (Covers.arranged (covers_singleton name)).mono (by simp)
    exact hname.append h hd.arranged

/-- A phrase covers its tokens, and its children are arranged among them. -/
theorem placed_phrase {levels : Nat} {pre us post : List Token} {n : Node}
    (hn : Phrase levels pre us post n) (h : InOrder us) :
    Covers us n.span ∧ Arranged us n.children := by
  cases hn with
  | expression d => exact isPlaced_value d h
  | @statement ts _ c hc stop hstop hend =>
    obtain ⟨hspan, hchildren⟩ := placed_clause c h.left
    cases stop with
    | none => simpa [Clause.closed] using ⟨hspan, hchildren⟩
    | some t =>
      rw [Clause.closed, Node.span_withSpan, Node.children_withSpan]
      exact ⟨hspan.merge [] h (covers_singleton t),
        hchildren.mono (List.subset_append_left ..)⟩

/-! ## Programs -/

section Programs

variable {levels : Nat} {s : TokenStream}

theorem arranged_attempts {segs : List (List Token)} (h : InOrder segs.flatten)
    (hsegs : ∀ segment ∈ segs, ∀ n, (attempt levels s segment).node? = some n →
      Covers segment n.span) :
    Arranged segs.flatten ((attempts levels s segs).filterMap Attempt.node?) := by
  induction segs with
  | nil => exact .nil _
  | cons segment more ih =>
    obtain ⟨hsegment, hmore⟩ := List.forall_mem_cons.1 hsegs
    rw [List.flatten_cons] at h ⊢
    rw [nodes_attempts_cons]
    refine .append h ?_ ?_
    · cases hnode : (attempt levels s segment).node? with
      | none => exact .nil _
      | some n => exact (hsegment n hnode).arranged
    · split
      · exact ih h.right hmore
      · exact .nil _

/-- The statements of a program are arranged among its tokens. -/
theorem arranged_nodes (once : s.EndsOnce)
    (hfull : ∀ t ∈ s.ahead, t.kind = .semicolon → t.span.isEmpty = .ok false)
    (h : InOrder s.ahead) : Arranged s.ahead (allStatements levels s).nodes := by
  have hnodes := (statements_attempts levels once (Nat.le_refl _) s).1
  rw [s.prepend_ahead] at hnodes
  rw [allStatements, hnodes]
  have hflat : InOrder (segments s.ahead).flatten := by rwa [flatten_segments]
  have harranged : Arranged (segments s.ahead).flatten
      ((attempts levels s (segments s.ahead)).filterMap Attempt.node?) := by
    refine arranged_attempts hflat fun segment hsegment n hn => ?_
    obtain ⟨halone, front, back, htokens, hback⟩ := segments_of_mem hsegment
    have hahead : segment ⊆ s.ahead := fun t ht => htokens ▸ by simp [ht]
    obtain ⟨ts, c, hc, stop, hstop, rfl, rfl⟩ := isStatementOf_attempt halone
      (fun t ht => once t (hahead ht)) (fun t ht => hfull t (hahead ht)) hn
    have hplace : InOrder (ts ++ stop.toList) := (htokens ▸ h).left.right
    have hphrase : Phrase levels [] (ts ++ stop.toList) [] (c.closed stop) :=
      .statement c hc stop hstop fun _ => rfl
    exact (placed_phrase hphrase hplace).1
  rwa [flatten_segments] at harranged

end Programs

end Grammar

end RuleLang
