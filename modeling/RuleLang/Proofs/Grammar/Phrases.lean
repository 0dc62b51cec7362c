import RuleLang.Proofs.Grammar.Trees
import RuleLang.Proofs.Node.Parts

/-!
The tokens that the parts of a program are read from. They stand one behind the other in the source:
an expression takes all parentheses around it, other than those of a call that it is an argument of,
and a statement its semicolon (`Phrase`). So every part of a tree has a derivation of its own, which
is nested no deeper than the whole (`phrase_of_part`).
-/
namespace RuleLang.Grammar

/-! ## Tiers -/

namespace Derivation

/-- An operand of any tier is an expression by itself. -/
def asExpression {ts : List Token} :
    {y : Tier} → Derivation (.tier y) ts → Derivation .expression ts
  | .chain .disjunction, d => .expression d
  | .chain .conjunction, d => ofConjunction d
  | .comparison, d => ofComparison d
  | .chain .additive, d => ofComparison d.uncompared
  | .chain .multiplicative, d => ofFactors d
  | .unary, d => ofUnary d
  | .primary, d => ofUnary d.plain
where
  ofConjunction (d : Derivation (.tier (.chain .conjunction)) ts) : Derivation .expression ts :=
    .expression (.chain (.first (c := .disjunction) d))
  ofComparison (d : Derivation (.tier .comparison) ts) : Derivation .expression ts :=
    ofConjunction (.chain (.first (c := .conjunction) d))
  ofFactors (d : Derivation (.tier (.chain .multiplicative)) ts) : Derivation .expression ts :=
    ofComparison (.uncompared (.chain (.first (c := .additive) d)))
  ofUnary (d : Derivation (.tier .unary) ts) : Derivation .expression ts :=
    ofFactors (.chain (.first (c := .multiplicative) d))

variable {y : Tier} {ts : List Token}

@[simp] theorem value_asExpression (d : Derivation (.tier y) ts) :
    d.asExpression.value = d.value := by
  cases y with
  | chain c => cases c <;> rfl
  | comparison | unary | primary => rfl

@[simp] theorem nesting_asExpression (d : Derivation (.tier y) ts) :
    d.asExpression.nesting = 1 + d.nesting := by
  cases y with
  | chain c => cases c <;> rfl
  | comparison | unary | primary => rfl

end Derivation

/-! ## Phrases -/

/-- The last token opens a parenthesis that is not that of a call. -/
def Opens (pre : List Token) : Prop :=
  ∃ front opening, pre = front ++ [opening] ∧ opening.kind = .lparen ∧
    ∀ callee ∈ front.getLast?, callee.kind ≠ .ident

/-- Parentheses stand around the tokens between `pre` and `post`, and are not those of a call. -/
def Enclosed (pre post : List Token) : Prop :=
  Opens pre ∧ ∃ closing ∈ post.head?, closing.kind = .rparen

/-- The tree of a statement, which takes the semicolon behind it into its extent. -/
def Clause.closed {ts : List Token} (c : Clause ts) : Option Token → Node
  | none => c.value
  | some t => c.value.withSpan (c.value.span.merge t.span)

/-- The node is read, with `levels` levels left, from the tokens between `pre` and `post`. -/
inductive Phrase (levels : Nat) (pre : List Token) : List Token → List Token → Node → Prop
  | expression {us post : List Token} (d : Derivation .expression us) (hd : d.nesting ≤ levels)
      (free : ¬Enclosed pre post) : Phrase levels pre us post d.value
  | statement {ts post : List Token} (c : Clause ts) (hc : c.nesting ≤ levels)
      (stop : Option Token) (hstop : ∀ t ∈ stop, t.kind = .semicolon)
      (hend : stop = none → post = []) :
      Phrase levels pre (ts ++ stop.toList) post (c.closed stop)

/-- The node is read from some of the tokens. -/
def IsRead (levels : Nat) (ts : List Token) (n : Node) : Prop :=
  ∃ pre us post, ts = pre ++ us ++ post ∧ Phrase levels pre us post n

theorem not_opens {pre : List Token} {t : Token} (h : t.kind ≠ .lparen) : ¬Opens (pre ++ [t]) := by
  rintro ⟨front, opening, heq, hopening, -⟩
  obtain rfl := List.singleton_inj.1 (List.append_inj_right' heq rfl)
  exact h hopening

theorem not_opens_call {pre : List Token} {callee opening : Token} (h : callee.kind = .ident) :
    ¬Opens (pre ++ [callee, opening]) := by
  rintro ⟨front, last, heq, -, hcallee⟩
  obtain ⟨rfl, -⟩ := List.append_inj' (show (pre ++ [callee]) ++ [opening] = front ++ [last] by
    simpa using heq) rfl
  exact hcallee callee (by simp) h

theorem free_of_front {pre post : List Token} (h : ¬Opens pre) : ¬Enclosed pre post :=
  fun hparens => h hparens.1

theorem free_of_behind {pre post : List Token} {t : Token} (h : t.kind ≠ .rparen) :
    ¬Enclosed pre (t :: post) := by
  rintro ⟨-, closing, hmem, hclosing⟩
  obtain rfl : t = closing := by simpa using hmem
  exact h hclosing

/-! ## Parts of expressions -/

/-- The nodes below a phrase: the children of a tree, or all arguments. -/
def below : {y : Nonterminal} → y.Value → List Node
  | .expression, n | .tier _, n | .folded _ _, n => n.children
  | .arguments, ns | .furtherArguments, ns => ns

section Parts

variable {levels : Nat} {ts : List Token} {m : Node}

/-- An expression that no parentheses stand around is a phrase, and so are its parts. -/
theorem isRead_of_part_expression (pre post : List Token) (d : Derivation .expression ts)
    (hd : d.nesting ≤ levels) (free : ¬Enclosed pre post)
    (hbelow : ∀ c ∈ d.value.children, m.Part c → IsRead levels (pre ++ ts ++ post) m)
    (hm : m.Part d.value) : IsRead levels (pre ++ ts ++ post) m := by
  cases hm with
  | self => exact ⟨pre, ts, post, rfl, .expression d hd free⟩
  | child hc hm => exact hbelow _ hc hm

theorem isRead_of_part_operand {y : Tier} (pre post : List Token) (d : Derivation (.tier y) ts)
    (hd : d.nesting < levels) (free : ¬Enclosed pre post)
    (hbelow : ∀ c ∈ d.value.children, m.Part c → IsRead levels (pre ++ ts ++ post) m)
    (hm : m.Part d.value) : IsRead levels (pre ++ ts ++ post) m := by
  rw [← d.value_asExpression] at hbelow hm
  refine isRead_of_part_expression pre post d.asExpression ?_ free hbelow hm
  rw [d.nesting_asExpression]
  omega

/-- An operator stands between two operands and no parentheses around either of them. -/
theorem isRead_of_part_binary {y z : Tier} {us : List Token} (left : Derivation (.tier y) ts)
    (right : Derivation (.tier z) us) {operator : Token}
    (hop : operator.kind ≠ .lparen ∧ operator.kind ≠ .rparen)
    (hd : left.nesting < levels ∧ right.nesting < levels)
    (ihl : ∀ pre post : List Token, ∀ c ∈ left.value.children, m.Part c →
      IsRead levels (pre ++ ts ++ post) m)
    (ihr : ∀ pre post : List Token, ∀ c ∈ right.value.children, m.Part c →
      IsRead levels (pre ++ us ++ post) m) (pre post : List Token)
    {c : Node} (hc : c ∈ [left.value, right.value]) (hm : m.Part c) :
    IsRead levels (pre ++ (ts ++ operator :: us) ++ post) m := by
  obtain rfl | hc := List.mem_cons.1 hc
  · have hpart := isRead_of_part_operand pre (operator :: us ++ post) left hd.1
      (free_of_behind hop.2) (ihl _ _) hm
    simpa using hpart
  · obtain rfl := List.mem_singleton.1 hc
    have hpart := isRead_of_part_operand (pre ++ ts ++ [operator]) post right hd.2
      (free_of_front (not_opens hop.1)) (ihr _ _) hm
    simpa using hpart

theorem Chain.ne_parenthesis {c : Chain} {k : Token.Kind} (h : k ∈ c.operators) :
    k ≠ .lparen ∧ k ≠ .rparen := by
  revert k
  cases c <;> decide

theorem comparison_ne_parenthesis {k : Token.Kind} (h : k ∈ Token.Kind.comparisons) :
    k ≠ .lparen ∧ k ≠ .rparen := by
  revert k
  decide

theorem sign_ne_parenthesis {k : Token.Kind} (h : k ∈ [Token.Kind.minus, .bang]) :
    k ≠ .lparen := by
  revert k
  decide

/-- What is below a phrase is read from its tokens. Behind the parenthesis of a call and behind a
comma, no parentheses stand around an argument. -/
theorem isRead_of_part_below {y : Nonterminal} (d : Derivation y ts) (hd : d.nesting < levels)
    (pre post : List Token) (hpre : y = .arguments → ¬Opens pre) {c : Node}
    (hc : c ∈ below d.value) (hm : m.Part c) : IsRead levels (pre ++ ts ++ post) m := by
  induction d generalizing pre post c with
  | expression body ih =>
    simp only [Derivation.nesting] at hd
    exact ih (by omega) pre post (by simp) hc hm
  | chain operands ih => exact ih hd pre post (by simp) hc hm
  | first operand ih => exact ih hd pre post (by simp) hc hm
  | uncompared side ih => exact ih hd pre post (by simp) hc hm
  | plain operand ih => exact ih hd pre post (by simp) hc hm
  | fold left operator hop right ihl ihr =>
    simp only [Derivation.nesting] at hd
    have hleft : left.nesting < levels := by omega
    have hright : right.nesting < levels := by omega
    exact isRead_of_part_binary left.chain right (Chain.ne_parenthesis hop) ⟨hleft, hright⟩
      (fun pre post c hc => ihl hleft pre post (by simp) hc)
      (fun pre post c hc => ihr hright pre post (by simp) hc) pre post hc hm
  | compared left operator hop right ihl ihr =>
    simp only [Derivation.nesting] at hd
    have hleft : left.nesting < levels := by omega
    have hright : right.nesting < levels := by omega
    exact isRead_of_part_binary left right (comparison_ne_parenthesis hop) ⟨hleft, hright⟩
      (fun pre post c hc => ihl hleft pre post (by simp) hc)
      (fun pre post c hc => ihr hright pre post (by simp) hc) pre post hc hm
  | @prefixed ts operator hop operand ih =>
    obtain rfl : c = operand.value := List.mem_singleton.1 hc
    have hpart := isRead_of_part_operand (pre ++ [operator]) post operand hd
      (free_of_front (not_opens (sign_ne_parenthesis hop))) (fun c hc => ih hd _ _ (by simp) hc) hm
    simpa using hpart
  | literal | truth | falsehood | name => cases hc
  | @call ts callee opening closing hn ho hcl inner ih =>
    obtain rfl | hc := List.mem_cons.1 hc
    · have hname : 0 < levels := by omega
      have hpart := isRead_of_part_operand pre (opening :: (ts ++ [closing]) ++ post)
        (.name callee hn) hname
        (free_of_behind (by simp [ho])) (fun c hc => absurd hc List.not_mem_nil) hm
      simpa using hpart
    · have hpart := ih hd (pre ++ [callee, opening]) (closing :: post)
        (fun _ => not_opens_call hn) hc hm
      simpa using hpart
  | group opening closing ho hcl inner ih =>
    have hpart := ih hd (pre ++ [opening]) (closing :: post) (by simp)
      (c := c) (by simpa [below, Derivation.value] using hc) hm
    simpa using hpart
  | noArguments | lastArgument => cases hc
  | @someArguments ts us head further ihh ihf =>
    simp only [Derivation.nesting] at hd
    have hhead : head.nesting < levels := by omega
    obtain rfl | hc := List.mem_cons.1 hc
    · have hpart := isRead_of_part_expression pre (us ++ post) head (by omega)
        (free_of_front (hpre rfl)) (fun c hc => ihh hhead _ _ (by simp) hc) hm
      simpa using hpart
    · have hpart := ihf (by omega) (pre ++ ts) post (by simp) hc hm
      simpa using hpart
  | @nextArgument ts us comma hcomma head further ihh ihf =>
    simp only [Derivation.nesting] at hd
    have hhead : head.nesting < levels := by omega
    obtain rfl | hc := List.mem_cons.1 hc
    · have hpart := isRead_of_part_expression (pre ++ [comma]) (us ++ post) head
        (by omega) (free_of_front (not_opens (by simp [hcomma])))
        (fun c hc => ihh hhead _ _ (by simp) hc) hm
      simpa using hpart
    · have hpart := ihf (by omega) (pre ++ comma :: ts) post (by simp) hc hm
      simpa using hpart

/-- An expression that no parentheses stand around is a phrase, and so are its parts. -/
theorem isRead_of_part (pre post : List Token) {d : Derivation .expression ts}
    (hd : d.nesting ≤ levels) (free : ¬Enclosed pre post) (hm : m.Part d.value) :
    IsRead levels (pre ++ ts ++ post) m := by
  refine isRead_of_part_expression pre post d hd free (fun c hc hbelow => ?_) hm
  cases d with
  | expression body =>
    simp only [Derivation.nesting] at hd
    exact isRead_of_part_below body (by omega) pre post (by simp) hc hbelow

/-- The parts of a statement are read from its tokens. -/
theorem isRead_of_part_clause {c : Clause ts} (hc : c.nesting ≤ levels) {stop : Option Token}
    (hstop : ∀ t ∈ stop, t.kind = .semicolon) {pre post : List Token}
    (hend : stop = none → post = []) (hm : m.Part (c.closed stop)) :
    IsRead levels (pre ++ (ts ++ stop.toList) ++ post) m := by
  have hfree {front : List Token} : ¬Enclosed front (stop.toList ++ post) := by
    cases stop with
    | none =>
      rintro ⟨-, t, ht, -⟩
      simp [hend rfl] at ht
    | some t => exact free_of_behind (by simp [hstop t rfl])
  cases hm with
  | self => exact ⟨pre, _, post, rfl, .statement c hc stop hstop hend⟩
  | child hchild hm =>
    have hchildren : (c.closed stop).children = c.value.children := by
      cases stop with
      | none => rfl
      | some t => exact Node.children_withSpan ..
    rw [hchildren] at hchild
    cases c with
    | expression d =>
      obtain rfl := List.mem_singleton.1 hchild
      have hpart := isRead_of_part pre (stop.toList ++ post) hc hfree hm
      simpa using hpart
    | @declaration ts word name equal hword hname hequal d =>
      obtain rfl | hchild := List.mem_cons.1 hchild
      · have hpart := isRead_of_part_operand (pre ++ [word])
          (equal :: ts ++ stop.toList ++ post) (.name name hname)
          (Nat.lt_of_lt_of_le (nesting_pos d) hc) (free_of_behind (by simp [hequal]))
          (fun c hc => absurd hc List.not_mem_nil) hm
        simpa using hpart
      · obtain rfl := List.mem_singleton.1 hchild
        have hpart := isRead_of_part (pre ++ [word, name, equal]) (stop.toList ++ post) hc hfree hm
        simpa using hpart

end Parts

/-! ## Programs -/

/-- The tokens are those of a clause and the semicolon behind it, if there is one, and the node is
the tree of both. -/
def IsStatementOf (levels : Nat) (segment : List Token) (n : Node) : Prop :=
  ∃ ts, ∃ c : Clause ts, c.nesting ≤ levels ∧ ∃ stop : Option Token,
    (∀ t ∈ stop, t.kind = .semicolon) ∧ segment = ts ++ stop.toList ∧ n = c.closed stop

/-- A segment is one by itself. It stands between others, and one without a semicolon is the last
one. -/
theorem segments_of_mem {ts segment : List Token} (h : segment ∈ segments ts) :
    segments segment = [segment] ∧ ∃ front back, ts = front ++ segment ++ back ∧
      ((∀ t ∈ segment, t.kind ≠ .semicolon) → back = []) := by
  induction ts using segments_induction with
  | nil => cases h
  | tail pre hne hpre =>
    rw [segments_tail hpre hne] at h
    obtain rfl := List.mem_singleton.1 h
    exact ⟨segments_tail hpre hne, [], [], by simp, fun _ => rfl⟩
  | segment pre stop more hpre hstop ih =>
    rw [segments_semicolon hpre hstop] at h
    obtain rfl | h := List.mem_cons.1 h
    · refine ⟨segments_semicolon hpre hstop [], [], more, by simp, fun hnone => ?_⟩
      exact absurd hstop (hnone stop (by simp))
    · obtain ⟨halone, front, back, rfl, hback⟩ := ih h
      exact ⟨halone, pre ++ stop :: front, back, by simp, hback⟩

section Programs

variable {levels : Nat} {s : TokenStream} {segment : List Token} {n m : Node}

/-- At the end of a source a statement is read from its segment. -/
theorem IsStatementOf.read (h : IsStatementOf levels segment n)
    (hfull : ∀ t ∈ segment, t.kind = .semicolon → t.span.isEmpty = .ok false) (s : TokenStream) :
    statement levels (s.atEnd.prepend segment) = .ok n s.atEnd := by
  obtain ⟨ts, c, hc, stop, hstop, rfl, rfl⟩ := h
  cases stop with
  | none =>
    rw [Option.toList_none, List.append_nil]
    exact c.read_atEnd hc s
  | some t =>
    have hkind : (s.atEnd.prepend [t]).current.kind = .semicolon := hstop t rfl
    obtain ⟨e, hread⟩ := c.read_prepend hc (.inl hkind)
    rw [Option.toList_some, TokenStream.prepend_append, hread,
      bind_of_ok (terminator_semicolon hkind _),
      TokenStream.advance_prepend_cons (by simp [hstop t rfl])]
    simp only [terminated, TokenStream.current_prepend_cons, hfull t (by simp) (hstop t rfl)]
    rfl

theorem IsStatementOf.segments_eq (h : IsStatementOf levels segment n) :
    segments segment = [segment] := by
  obtain ⟨ts, c, -, stop, hstop, rfl, -⟩ := h
  have hinner : ∀ t ∈ ts, t.kind ≠ .semicolon := fun t ht => (c.inner t ht).1
  cases stop with
  | none =>
    rw [Option.toList_none, List.append_nil]
    exact segments_tail hinner c.ne_nil
  | some t => exact segments_semicolon hinner (hstop t rfl) []

/-- The segment of a statement is read as that statement and nothing else. -/
theorem IsStatementOf.allStatements (h : IsStatementOf levels segment n)
    (once : ∀ t ∈ segment, t.kind ≠ .eof)
    (hfull : ∀ t ∈ segment, t.kind = .semicolon → t.span.isEmpty = .ok false) (s : TokenStream) :
    (allStatements levels (s.atEnd.prepend segment)).nodes = [n] ∧
      (allStatements levels (s.atEnd.prepend segment)).faults = [] := by
  have hread := statements_attempts levels once (Nat.le_refl _) s
  have hahead : (s.atEnd.prepend segment).ahead = segment := List.append_nil segment
  rw [Grammar.allStatements, hahead, hread.1, hread.2, h.segments_eq, nodes_attempts_cons,
    faults_attempts_cons, attempt, Goal.read, h.read hfull s]
  exact ⟨rfl, rfl⟩

/-- A statement takes its whole segment. -/
theorem isStatementOf_attempt (halone : segments segment = [segment])
    (once : ∀ t ∈ segment, t.kind ≠ .eof)
    (hfull : ∀ t ∈ segment, t.kind = .semicolon → t.span.isEmpty = .ok false)
    (h : (attempt levels s segment).node? = some n) : IsStatementOf levels segment n := by
  cases hread : statement levels (s.atEnd.prepend segment) with
  | error fault rest =>
    rw [attempt, Goal.read, hread] at h
    cases h
  | ok found rest =>
    rw [attempt, Goal.read, hread] at h
    obtain rfl : found = n := Option.some.inj h
    obtain ⟨ts, c, hc, stop, hs, hstop, hend, hvalue⟩ := statement_terminated hread
    have htokens : segment = ts ++ stop.toList ++ rest.ahead := by
      have hahead := congrArg TokenStream.ahead hs
      simpa [TokenStream.atEnd] using hahead
    have honce : rest.EndsOnce := fun t ht => once t (htokens ▸ List.mem_append_right _ ht)
    refine ⟨ts, c, hc, stop, hstop, ?_⟩
    cases stop with
    | none =>
      have hnil := honce.ahead_eq_nil (hend rfl)
      obtain ⟨rfl, -⟩ := pure_eq_ok.1 hvalue
      exact ⟨by simpa [hnil] using htokens, rfl⟩
    | some t =>
      have hkind := hstop t rfl
      -- the semicolon ends its segment
      have hsplit : segment = ts ++ t :: rest.ahead := by simpa using htokens
      rw [hsplit, segments_semicolon (fun u hu => (c.inner u hu).1) hkind, ← hsplit] at halone
      obtain ⟨hwhole, -⟩ := List.cons_eq_cons.1 halone
      simp only [terminated, hfull t (by simp [htokens]) hkind] at hvalue
      obtain ⟨rfl, -⟩ := pure_eq_ok.1 hvalue
      exact ⟨hwhole.symm, rfl⟩

variable (once : s.EndsOnce)
  (hfull : ∀ t ∈ s.ahead, t.kind = .semicolon → t.span.isEmpty = .ok false)
include once hfull

/-- Each statement of a program is that of one of its segments. -/
theorem isStatementOf_nodes (hn : n ∈ (allStatements levels s).nodes) :
    ∃ segment ∈ segments s.ahead, IsStatementOf levels segment n := by
  have hnodes := (statements_attempts levels once (Nat.le_refl _) s).1
  rw [s.prepend_ahead] at hnodes
  rw [allStatements, hnodes] at hn
  obtain ⟨a, ha, hnode⟩ := List.mem_filterMap.1 hn
  obtain ⟨segment, hsegment, rfl⟩ := mem_attempts ha
  have hahead : segment ⊆ s.ahead := fun t ht =>
    flatten_segments s.ahead ▸ List.mem_flatten_of_mem hsegment ht
  exact ⟨segment, hsegment, isStatementOf_attempt (segments_of_mem hsegment).1
    (fun t ht => once t (hahead ht)) (fun t ht => hfull t (hahead ht)) hnode⟩

/-- All parts of a program are read from its tokens. -/
theorem isRead_of_part_nodes (hn : n ∈ (allStatements levels s).nodes) (hm : m.Part n) :
    IsRead levels s.ahead m := by
  obtain ⟨segment, hsegment, ts, c, hc, stop, hstop, rfl, rfl⟩ := isStatementOf_nodes once hfull hn
  obtain ⟨-, front, back, htokens, hback⟩ := segments_of_mem hsegment
  rw [htokens]
  refine isRead_of_part_clause hc hstop (fun hnone => hback ?_) hm
  rw [hnone, Option.toList_none, List.append_nil]
  exact fun t ht => (c.inner t ht).1

end Programs

end RuleLang.Grammar
