import RuleLang.Proofs.Grammar.Completeness

/-!
The grammar is unambiguous: a list of tokens has at most one derivation from a nonterminal
(`subsingleton_derivation`). Where a phrase ends is settled by its reader, which is a function; the
derivations of the parts are then those of equal lists.
-/
namespace RuleLang.Grammar

section Ends

variable {s t : TokenStream} {ts us : List Token}

theorem prepend_cons_inj {a b : Token} (h : s.prepend (a :: ts) = t.prepend (b :: us)) :
    a = b ∧ s.prepend ts = t.prepend us := by
  simp only [TokenStream.prepend, TokenStream.mk.injEq, List.cons_append, List.cons.injEq] at h ⊢
  exact ⟨h.1.1, h.1.2, h.2⟩

theorem prepend_inj (h : s.prepend ts = s.prepend us) : ts = us :=
  List.append_cancel_right (congrArg TokenStream.ahead h)

/-- Two readings of one stream by one reader end at the same place. -/
theorem same_of_ok {α : Type} {r : Reader α} {v w : α} (hr : r (s.prepend ts) = .ok v s)
    (hr' : r (t.prepend us) = .ok w t) (h : s.prepend ts = t.prepend us) : ts = us ∧ s = t := by
  rw [h, hr'] at hr
  cases hr
  exact ⟨prepend_inj h, rfl⟩

theorem tier_end {y : Tier} (d : Derivation (.tier y) ts) (d' : Derivation (.tier y) us)
    (hs : Stops (.tier y) s.current.kind) (ht : Stops (.tier y) t.current.kind)
    (h : s.prepend ts = t.prepend us) : ts = us ∧ s = t :=
  same_of_ok (reads_of_derivation d (Nat.le_max_left _ d'.nesting) hs)
    (reads_of_derivation d' (Nat.le_max_right d.nesting _) ht) h

theorem expression_end (d : Derivation .expression ts) (d' : Derivation .expression us)
    (hs : Stops .expression s.current.kind) (ht : Stops .expression t.current.kind)
    (h : s.prepend ts = t.prepend us) : ts = us ∧ s = t :=
  same_of_ok (reads_of_derivation d (Nat.le_max_left _ d'.nesting) hs)
    (reads_of_derivation d' (Nat.le_max_right d.nesting _) ht) h

/-- Chains of equally many operators at the front of one stream hold the same tokens. -/
theorem folded_end {c : Chain} {n : Nat} (d : Derivation (.folded c n) ts)
    (d' : Derivation (.folded c n) us) (hs : Stops (.folded c n) s.current.kind)
    (ht : Stops (.folded c n) t.current.kind) (h : s.prepend ts = t.prepend us) :
    ts = us ∧ s = t := by
  induction n generalizing ts us s t with
  | zero =>
    cases d with
    | first operand =>
      cases d' with
      | first operand' => exact tier_end operand operand' hs ht h
  | succ n ih =>
    cases d with
    | @fold _ _ ts vs left operator hop right =>
      cases d' with
      | @fold _ _ us ws left' operator' hop' right' =>
        rw [TokenStream.prepend_append, TokenStream.prepend_append] at h
        obtain ⟨rfl, hrest⟩ := ih left left' (stops_of_operator hop n vs s)
          (stops_of_operator hop' n ws t) h
        obtain ⟨rfl, hright⟩ := prepend_cons_inj hrest
        obtain ⟨rfl, rfl⟩ := tier_end right right' hs ht hright
        exact ⟨rfl, rfl⟩

end Ends

/-- Any stream at its end. -/
def emptyStream : TokenStream := ⟨[], ⟨.eof, "", ⟨"", 0, 0, 0, 0, 0, 0⟩, .null⟩, rfl⟩

@[simp] theorem current_emptyStream : emptyStream.current.kind = .eof := rfl

theorem stops_emptyStream (y : Nonterminal) (h : y ≠ .arguments) (h' : y ≠ .furtherArguments) :
    Stops y emptyStream.current.kind := by
  cases y with
  | expression => simp [Stops, Tier.extensions, Token.Kind.comparisons]
  | tier t =>
    cases t with
    | chain c => cases c <;> simp [Stops, Tier.extensions, Token.Kind.comparisons]
    | _ => simp [Stops, Tier.extensions, Token.Kind.comparisons]
  | folded c n => cases c <;> simp [Stops, Chain.operand, Tier.extensions, Token.Kind.comparisons]
  | arguments => exact absurd rfl h
  | furtherArguments => exact absurd rfl h'

/-- A chain begins with the chain of any smaller number of its operators. -/
theorem exists_shorter {c : Chain} {n m : Nat} {ts : List Token} (d : Derivation (.folded c m) ts)
    (h : n < m) : ∃ us operator vs, Nonempty (Derivation (.folded c n) us) ∧
      operator.kind ∈ c.operators ∧ ts = us ++ operator :: vs := by
  induction m generalizing ts with
  | zero => omega
  | succ m ih =>
    cases d with
    | @fold _ _ us vs left operator hop right =>
      by_cases hn : n = m
      · subst hn
        exact ⟨us, operator, vs, ⟨left⟩, hop, rfl⟩
      · obtain ⟨us', operator', vs', hd, hop', rfl⟩ := ih left (by omega)
        exact ⟨us', operator', vs' ++ operator :: vs, hd, hop', by simp⟩

theorem not_lt_of_folded {c : Chain} {n m : Nat} {ts : List Token}
    (d : Derivation (.folded c n) ts) (d' : Derivation (.folded c m) ts) : ¬ n < m := by
  intro h
  obtain ⟨us, operator, vs, ⟨short⟩, hop, rfl⟩ := exists_shorter d' h
  have hend := (folded_end short d (stops_of_operator hop n vs emptyStream)
    (stops_emptyStream _ nofun nofun) (by simp)).1
  simp at hend

/-- The operators of a chain are as many as its tokens allow. -/
theorem count_unique {c : Chain} {n m : Nat} {ts : List Token}
    (d : Derivation (.folded c n) ts) (d' : Derivation (.folded c m) ts) : n = m :=
  Nat.le_antisymm (Nat.le_of_not_lt (not_lt_of_folded d' d))
    (Nat.le_of_not_lt (not_lt_of_folded d d'))

/-- A comparison is longer than its left side. -/
theorem ne_of_compared {ts us vs : List Token} {operator : Token}
    (side : Derivation (.tier (.chain .additive)) ts)
    (left : Derivation (.tier (.chain .additive)) us)
    (hop : operator.kind ∈ Token.Kind.comparisons) : ts ≠ us ++ operator :: vs := by
  rintro rfl
  have hend := (tier_end left side (stops_of_comparison hop vs emptyStream)
    (stops_emptyStream _ nofun nofun) (by simp)).1
  simp at hend

theorem ne_nil_of_expression {ts : List Token} (d : Derivation .expression ts) (us : List Token) :
    ts ++ us ≠ [] := by
  obtain ⟨t, vs, rfl, -⟩ := starts_of_derivation d
  simp

theorem prepend_split {ts us vs ws : List Token} (h : ts ++ vs = us ++ ws) :
    (emptyStream.prepend vs).prepend ts = (emptyStream.prepend ws).prepend us := by
  rw [← TokenStream.prepend_append, h, TokenStream.prepend_append]

/-- An argument ends in front of the arguments behind it. -/
theorem argument_end {ts us vs ws : List Token} (head : Derivation .expression ts)
    (head' : Derivation .expression us) (further : Derivation .furtherArguments vs)
    (further' : Derivation .furtherArguments ws) (h : ts ++ vs = us ++ ws) :
    ts = us ∧ vs = ws := by
  have hempty := stops_emptyStream .expression nofun nofun
  obtain ⟨rfl, hrest⟩ := expression_end head head' (stops_of_furtherArguments further hempty)
    (stops_of_furtherArguments further' hempty) (prepend_split h)
  exact ⟨rfl, prepend_inj hrest⟩

/-- The derivation of a primary of one token, which its kind determines. -/
def leaf? (t : Token) : Option (Derivation (.tier .primary) [t]) :=
  if h : t.kind = .number ∨ t.kind = .string then some (.literal t h)
  else if h : t.kind = .true then some (.truth t h)
  else if h : t.kind = .false then some (.falsehood t h)
  else if h : t.kind = .ident then some (.name t h)
  else none

theorem leaf?_eq {us : List Token} (d : Derivation (.tier .primary) us) {t : Token}
    (h : us = [t]) : leaf? t = some (h ▸ d) := by
  cases d with
  | call => simp at h
  | group => simp at h
  | literal t' ht =>
    obtain rfl := List.singleton_inj.1 h
    simp [leaf?, ht]
  | _ =>
    rename_i t' ht
    obtain rfl := List.singleton_inj.1 h
    simp [leaf?, ht]

theorem leaf_unique {t : Token} (d d' : Derivation (.tier .primary) [t]) : d = d' :=
  Option.some.inj ((leaf?_eq d rfl).symm.trans (leaf?_eq d' rfl))

/-- Derivations of equal lists are equal. -/
theorem heq_of_derivations {y : Nonterminal} {ts us : List Token} (d : Derivation y ts)
    (d' : Derivation y us) (h : ts = us) : HEq d d' := by
  induction d generalizing us with
  | expression body ih =>
    cases d' with
    | expression body' =>
      subst h
      cases ih body' rfl
      rfl
  | chain operands ih =>
    cases d' with
    | chain operands' =>
      subst h
      obtain rfl := count_unique operands operands'
      cases ih operands' rfl
      rfl
  | first operand ih =>
    cases d' with
    | first operand' =>
      subst h
      cases ih operand' rfl
      rfl
  | @fold c n ts vs left operator hop right ihl ihr =>
    cases d' with
    | @fold _ _ us ws left' operator' hop' right' =>
      obtain ⟨rfl, hrest⟩ := folded_end left left' (stops_of_operator hop n vs _)
        (stops_of_operator hop' n ws _) (prepend_split h)
      obtain ⟨rfl, rfl⟩ := List.cons.inj (prepend_inj hrest)
      cases ihl left' rfl
      cases ihr right' rfl
      rfl
  | uncompared side ih =>
    cases d' with
    | uncompared side' =>
      subst h
      cases ih side' rfl
      rfl
    | compared left operator hop right => exact absurd h (ne_of_compared side left hop)
  | @compared ts vs left operator hop right ihl ihr =>
    cases d' with
    | uncompared side => exact absurd h.symm (ne_of_compared side left hop)
    | @compared us ws left' operator' hop' right' =>
      obtain ⟨rfl, hrest⟩ := tier_end left left' (stops_of_comparison hop vs _)
        (stops_of_comparison hop' ws _) (prepend_split h)
      obtain ⟨rfl, rfl⟩ := List.cons.inj (prepend_inj hrest)
      cases ihl left' rfl
      cases ihr right' rfl
      rfl
  | plain operand ih =>
    cases d' with
    | plain operand' =>
      subst h
      cases ih operand' rfl
      rfl
    | prefixed operator hop operand' =>
      exact absurd (h ▸ hop) (current_not_mem_prefixes operand emptyStream)
  | prefixed operator hop operand ih =>
    cases d' with
    | plain operand' =>
      exact absurd (h ▸ hop) (current_not_mem_prefixes operand' emptyStream)
    | prefixed operator' hop' operand' =>
      obtain ⟨rfl, rfl⟩ := List.cons.inj h
      cases ih operand' rfl
      rfl
  | literal t ht | truth t ht | falsehood t ht | name t ht =>
    subst h
    exact heq_of_eq (leaf_unique _ d')
  | call callee opening closing hn ho hc inner ih =>
    cases d' with
    | call callee' opening' closing' hn' ho' hc' inner' =>
      obtain ⟨rfl, hrest⟩ := List.cons.inj h
      obtain ⟨rfl, hinner⟩ := List.cons.inj hrest
      obtain ⟨rfl, hclose⟩ := List.append_inj' hinner rfl
      obtain rfl := List.singleton_inj.1 hclose
      cases ih inner' rfl
      rfl
    | group opening' closing' ho' =>
      obtain ⟨rfl, -⟩ := List.cons.inj h
      simp [hn] at ho'
    | _ => simp at h
  | group opening closing ho hc inner ih =>
    cases d' with
    | group opening' closing' ho' hc' inner' =>
      obtain ⟨rfl, hinner⟩ := List.cons.inj h
      obtain ⟨rfl, hclose⟩ := List.append_inj' hinner rfl
      obtain rfl := List.singleton_inj.1 hclose
      cases ih inner' rfl
      rfl
    | call callee' opening' closing' hn' =>
      obtain ⟨rfl, -⟩ := List.cons.inj h
      simp [ho] at hn'
    | _ => simp at h
  | noArguments =>
    cases d' with
    | noArguments => rfl
    | someArguments head further => exact absurd h (ne_nil_of_expression head _).symm
  | @someArguments ts vs head further ihh ihf =>
    cases d' with
    | noArguments => exact absurd h (ne_nil_of_expression head _)
    | @someArguments us ws head' further' =>
      obtain ⟨rfl, rfl⟩ := argument_end head head' further further' h
      cases ihh head' rfl
      cases ihf further' rfl
      rfl
  | lastArgument =>
    cases d' with
    | lastArgument => rfl
    | nextArgument => simp at h
  | @nextArgument ts vs comma hcomma head further ihh ihf =>
    cases d' with
    | lastArgument => simp at h
    | @nextArgument us ws comma' hcomma' head' further' =>
      obtain ⟨rfl, hrest⟩ := List.cons.inj h
      obtain ⟨rfl, rfl⟩ := argument_end head head' further further' hrest
      cases ihh head' rfl
      cases ihf further' rfl
      rfl

/-- A list of tokens has at most one derivation. -/
theorem subsingleton_derivation (y : Nonterminal) (ts : List Token) :
    Subsingleton (Derivation y ts) :=
  ⟨fun d d' => eq_of_heq (heq_of_derivations d d' rfl)⟩

end RuleLang.Grammar
