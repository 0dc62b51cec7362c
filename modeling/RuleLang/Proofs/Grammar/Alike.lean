import Mathlib.Data.List.Forall2
import RuleLang.Parse
import RuleLang.Proofs.Grammar.Levels
import RuleLang.Proofs.Node.Aspect
import RuleLang.Proofs.Token.Lexing

/-!
Reading does not depend on places. Two streams are alike in an aspect of spans if they hold the same
words, at places that agree in that aspect. On alike streams every reader comes to alike results: to
trees that agree in the aspect, or to faults of one sort, with alike streams left
(`expression_uniform`, `statements_uniform`). In any case the trees are of one shape
(`allStatements_alike`), and what is reported about alike faults differs in its places only
(`wording_diagnose`).
-/
namespace RuleLang

/-- What a diagnostic says, apart from the place it is about. -/
def Diagnostic.wording (d : Diagnostic) : String × Option String := (d.message, d.production)

/-- A semicolon that is not empty, or any other token. -/
def Token.Full (t : Token) : Prop := t.kind = .semicolon → t.span.isEmpty = .ok false

/-- Two tokens are the same word at places that agree in an aspect. -/
structure Token.Alike (φ : Span.Aspect) (t u : Token) : Prop where
  word : t.word = u.word
  place : φ.of t.span = φ.of u.span
  left : t.Full
  right : u.Full

namespace Token.Alike

variable {φ : Span.Aspect} {t u : Token} (h : t.Alike φ u)
include h

theorem kind : t.kind = u.kind := congrArg Word.kind h.word

theorem lexeme : t.lexeme = u.lexeme := String.toList_inj.1 (congrArg Word.lexeme h.word)

theorem value : t.value = u.value := congrArg Word.value h.word

end Token.Alike

/-- Tokens of the same words are alike in no aspect of their places. -/
theorem Token.forall₂_alike {ts us : List Token} (h : ts.map word = us.map word)
    (ht : ∀ t ∈ ts, t.Full) (hu : ∀ u ∈ us, u.Full) : List.Forall₂ (Alike .nothing) ts us := by
  induction ts generalizing us with
  | nil =>
    obtain rfl := List.map_eq_nil_iff.1 h.symm
    exact .nil
  | cons t ts ih =>
    obtain ⟨u, us, rfl, hword, hwords⟩ := List.map_eq_cons_iff.1 h.symm
    obtain ⟨ht, hts⟩ := List.forall_mem_cons.1 ht
    obtain ⟨hu, hus⟩ := List.forall_mem_cons.1 hu
    exact .cons ⟨hword.symm, rfl, ht, hu⟩ (ih hwords.symm hts hus)

/-- Two streams hold the same words at places that agree in an aspect. -/
structure TokenStream.Alike (φ : Span.Aspect) (s s' : TokenStream) : Prop where
  ahead : List.Forall₂ (Token.Alike φ) s.ahead s'.ahead
  last : s.last.Alike φ s'.last

theorem TokenStream.behindSemicolon_alike {φ : Span.Aspect} {ts us : List Token}
    (h : List.Forall₂ (Token.Alike φ) ts us) :
    List.Forall₂ (Token.Alike φ) (behindSemicolon ts) (behindSemicolon us) := by
  induction h with
  | nil => exact .nil
  | cons ht hrest ih =>
    simp only [behindSemicolon, ht.kind]
    split
    · exact .cons ht hrest
    · split
      · exact hrest
      · exact ih

namespace TokenStream.Alike

variable {φ : Span.Aspect} {s s' : TokenStream} (h : s.Alike φ s')
include h

theorem current : s.current.Alike φ s'.current := by
  obtain ⟨ahead, last, eof⟩ := s
  obtain ⟨ahead', last', eof'⟩ := s'
  obtain ⟨hahead, hlast⟩ := h
  cases hahead with
  | nil => exact hlast
  | cons ht hrest => exact ht

theorem advance : s.advance.Alike φ s'.advance := by
  obtain ⟨ahead, last, eof⟩ := s
  obtain ⟨ahead', last', eof'⟩ := s'
  obtain ⟨hahead, hlast⟩ := h
  cases hahead with
  | nil => exact ⟨.nil, hlast⟩
  | cons ht hrest =>
    simp only [TokenStream.advance, ht.kind]
    split
    · exact ⟨.cons ht hrest, hlast⟩
    · exact ⟨hrest, hlast⟩

theorem length_ahead : s.ahead.length = s'.ahead.length := h.ahead.length_eq

theorem synchronize : s.synchronize.Alike φ s'.synchronize :=
  ⟨behindSemicolon_alike h.ahead, h.last⟩

end TokenStream.Alike

namespace Grammar

open Reader

/-- Two faults of one sort, found at the same word. -/
inductive Fault.Alike (φ : Span.Aspect) : Fault → Fault → Prop where
  | unexpected (error : SyntaxError) {t u : Token} (h : t.Alike φ u) :
      Alike φ (.unexpected error t) (.unexpected error u)
  | tooDeep {t u : Token} (h : t.Alike φ u) : Alike φ (.tooDeep t) (.tooDeep u)

/-- Two results that differ in places only: values that `R` relates, or alike faults. -/
inductive Matches {α : Type} (φ : Span.Aspect) (R : α → α → Prop) :
    EStateM.Result Fault TokenStream α → EStateM.Result Fault TokenStream α → Prop where
  | ok {a b : α} {s s' : TokenStream} (h : R a b) (hs : s.Alike φ s') :
      Matches φ R (.ok a s) (.ok b s')
  | error {e f : Fault} {s s' : TokenStream} (h : e.Alike φ f) (hs : s.Alike φ s') :
      Matches φ R (.error e s) (.error f s')

/-- On alike streams the two readers come to matching results. -/
def Uniform {α : Type} (φ : Span.Aspect) (R : α → α → Prop) (r r' : Reader α) : Prop :=
  ∀ s s' : TokenStream, s.Alike φ s' → Matches φ R (r s) (r' s')

/-- Two trees that agree in the aspect of their spans. -/
def Shaped (φ : Span.Aspect) (n m : Node) : Prop := n.mapSpan φ.of = m.mapSpan φ.of

/-- Two lists of trees that agree one by one. -/
def ShapedLists (φ : Span.Aspect) (ns ms : List Node) : Prop :=
  ns.map (Node.mapSpan φ.of) = ms.map (Node.mapSpan φ.of)

theorem Shaped.span {φ : Span.Aspect} {n m : Node} (h : Shaped φ n m) :
    φ.of n.span = φ.of m.span := by
  rw [← Node.span_mapSpan φ.of, ← Node.span_mapSpan φ.of m]
  exact congrArg Node.span h

theorem Shaped.bare {φ : Span.Aspect} {n m : Node} (h : Shaped φ n m) : n.bare = m.bare := by
  rw [← Node.bare_mapSpan φ.of, ← Node.bare_mapSpan φ.of m]
  exact congrArg Node.bare h

section Steps

variable {φ : Span.Aspect} {α β : Type} {R : α → α → Prop} {S : β → β → Prop}

theorem uniform_pure {a b : α} (h : R a b) : Uniform φ R (pure a) (pure b) :=
  fun _ _ hs => .ok h hs

theorem uniform_throw {e f : Fault} (h : e.Alike φ f) : Uniform φ R (throw e) (throw f) :=
  fun _ _ hs => .error h hs

theorem Uniform.bind {r r' : Reader α} {f f' : α → Reader β} (h : Uniform φ R r r')
    (hf : ∀ a b, R a b → Uniform φ S (f a) (f' b)) : Uniform φ S (r >>= f) (r' >>= f') := by
  intro s s' hs
  have hfirst := h s s' hs
  generalize hr : r s = x, hr' : r' s' = y at hfirst
  cases hfirst with
  | ok hab hs =>
    rw [bind_of_ok hr, bind_of_ok hr']
    exact hf _ _ hab _ _ hs
  | error he hs =>
    rw [bind_of_error hr, bind_of_error hr']
    exact .error he hs

theorem Uniform.ite {p q : Prop} [Decidable p] [Decidable q] {r r' f f' : Reader α} (hpq : p ↔ q)
    (h : Uniform φ R r f) (h' : Uniform φ R r' f') :
    Uniform φ R (if p then r else r') (if q then f else f') := by
  simp only [hpq]
  split
  · exact h
  · exact h'

theorem uniform_current : Uniform φ (Token.Alike φ) current current :=
  fun _ _ hs => .ok hs.current hs

theorem uniform_advance : Uniform φ (Token.Alike φ) advance advance :=
  fun _ _ hs => .ok hs.current hs.advance

theorem uniform_remaining : Uniform φ Eq remaining remaining :=
  fun _ _ hs => .ok hs.length_ahead hs

theorem uniform_accept (kinds : List Token.Kind) :
    Uniform φ (Option.Rel fun t u => t.Alike φ u ∧ t.kind ∈ kinds) (accept kinds)
      (accept kinds) := by
  intro s s' hs
  simp only [accept, hs.current.kind]
  split
  · rename_i hkind
    exact .ok (.some ⟨hs.current, hs.current.kind ▸ hkind⟩) hs.advance
  · exact .ok .none hs

theorem uniform_expect (kind : Token.Kind) (error : SyntaxError) :
    Uniform φ (Token.Alike φ) (expect kind error) (expect kind error) := by
  intro s s' hs
  simp only [expect, hs.current.kind]
  split
  · exact .ok hs.current hs.advance
  · exact .error (.unexpected error hs.current) hs

end Steps

/-! ## Expressions -/

section Expressions

variable {φ : Span.Aspect}

theorem shaped_binary {operator operator' : Token} {l l' r r' : Node}
    (h : operator.Alike φ operator') (hl : Shaped φ l l') (hr : Shaped φ r r') :
    Shaped φ (binary operator l r) (binary operator' l' r') := by
  simp only [Shaped, binary, Node.mapSpan, φ.merge, h.lexeme, hl.span, hr.span,
    show l.mapSpan φ.of = _ from hl, show r.mapSpan φ.of = _ from hr]

section Tiers

variable {nested : Nat → Reader Node} {levels : Nat}

theorem chainFrom_uniform {operand : Nat → Reader Node} (kinds : List Token.Kind)
    (h : ∀ l ≤ levels, Uniform φ (Shaped φ) (operand l) (operand l)) {left left' : Node}
    (hleft : Shaped φ left left') :
    Uniform φ (Shaped φ) (chainFrom operand kinds levels left)
      (chainFrom operand kinds levels left') := by
  induction levels generalizing left left' with
  | zero =>
    unfold chainFrom
    refine (uniform_accept kinds).bind fun found found' hfound => ?_
    cases hfound with
    | none => exact uniform_pure hleft
    | some hop => exact uniform_throw (.tooDeep hop.1)
  | succ levels ih =>
    unfold chainFrom
    refine (uniform_accept kinds).bind fun found found' hfound => ?_
    cases hfound with
    | none => exact uniform_pure hleft
    | some hop =>
      refine (h levels (Nat.le_succ _)).bind fun right right' hright => ?_
      exact ih (fun l hl => h l (Nat.le_succ_of_le hl)) (shaped_binary hop.1 hleft hright)

theorem chain_uniform {operand : Nat → Reader Node} (kinds : List Token.Kind)
    (h : ∀ l ≤ levels, Uniform φ (Shaped φ) (operand l) (operand l)) :
    Uniform φ (Shaped φ) (chain operand kinds levels) (chain operand kinds levels) :=
  (h levels (Nat.le_refl _)).bind fun _ _ => chainFrom_uniform kinds h

theorem moreArguments_uniform (h : Uniform φ (Shaped φ) (nested levels) (nested levels))
    (count : Nat) :
    Uniform φ (ShapedLists φ) (moreArguments nested levels count)
      (moreArguments nested levels count) := by
  induction count with
  | zero => exact uniform_pure rfl
  | succ count ih =>
    unfold moreArguments
    refine (uniform_accept _).bind fun found found' hfound => ?_
    cases hfound with
    | none => exact uniform_pure rfl
    | some hcomma =>
      exact h.bind fun _ _ hn => ih.bind fun _ _ hns => uniform_pure (List.cons_eq_cons.2 ⟨hn, hns⟩)

theorem arguments_uniform (h : Uniform φ (Shaped φ) (nested levels) (nested levels)) :
    Uniform φ (ShapedLists φ) (arguments nested levels) (arguments nested levels) := by
  refine uniform_current.bind fun t u ht => .ite (by rw [ht.kind]) (uniform_pure rfl) ?_
  refine h.bind fun _ _ hn => uniform_remaining.bind fun count _ hcount => ?_
  subst hcount
  exact (moreArguments_uniform h count).bind fun _ _ hns =>
    uniform_pure (List.cons_eq_cons.2 ⟨hn, hns⟩)

theorem call_uniform (h : Uniform φ (Shaped φ) (nested levels) (nested levels))
    {callee callee' : Node} (hcallee : Shaped φ callee callee') :
    Uniform φ (Shaped φ) (call nested callee levels) (call nested callee' levels) := by
  refine uniform_advance.bind fun _ _ _ => (arguments_uniform h).bind fun _ _ hns => ?_
  refine (uniform_expect _ _).bind fun _ _ hclose => uniform_pure ?_
  simp only [Shaped, Node.mapSpan, Node.mapSpans_eq_map, φ.merge, hcallee.span, hclose.place,
    show callee.mapSpan φ.of = _ from hcallee, show List.map _ _ = List.map _ _ from hns]

theorem primary_uniform (h : Uniform φ (Shaped φ) (nested levels) (nested levels)) :
    Uniform φ (Shaped φ) (primary nested levels) (primary nested levels) := by
  refine uniform_current.bind fun t u ht => ?_
  rw [ht.kind]
  cases u.kind with
  | number | string =>
    refine uniform_advance.bind fun _ _ _ => uniform_pure ?_
    simp only [Shaped, Node.mapSpan, ht.value, ht.place]
  | true | false =>
    refine uniform_advance.bind fun _ _ _ => uniform_pure ?_
    simp only [Shaped, Node.mapSpan, ht.place]
  | ident =>
    have hname : Shaped φ (.identifier t.lexeme t.span) (.identifier u.lexeme u.span) := by
      simp only [Shaped, Node.mapSpan, ht.lexeme, ht.place]
    exact uniform_advance.bind fun _ _ _ => uniform_current.bind fun _ _ hnext =>
      .ite (by rw [hnext.kind]) (call_uniform h hname) (uniform_pure hname)
  | lparen =>
    refine uniform_advance.bind fun _ _ _ => h.bind fun n m hn => ?_
    refine (uniform_expect _ _).bind fun _ _ hclose => uniform_pure ?_
    simp only [Shaped, Node.mapSpan_withSpan, φ.merge, ht.place, hclose.place,
      show n.mapSpan φ.of = _ from hn]
  | _ => exact uniform_throw (.unexpected _ ht)

theorem unary_uniform (h : Uniform φ (Shaped φ) (nested levels) (nested levels)) :
    Uniform φ (Shaped φ) (unary nested levels) (unary nested levels) := by
  refine (uniform_accept _).bind fun found found' hfound => ?_
  cases hfound with
  | none => exact primary_uniform h
  | some hop =>
    refine (primary_uniform h).bind fun n m hn => uniform_pure ?_
    simp only [Shaped, Node.mapSpan, φ.merge, hop.1.lexeme, hop.1.place, hn.span,
      show n.mapSpan φ.of = _ from hn]

theorem additive_uniform (h : ∀ l ≤ levels, Uniform φ (Shaped φ) (nested l) (nested l)) :
    Uniform φ (Shaped φ) (additive nested levels) (additive nested levels) :=
  chain_uniform _ fun _ hl => chain_uniform _ fun k hk => unary_uniform (h k (Nat.le_trans hk hl))

theorem comparison_uniform (h : ∀ l ≤ levels, Uniform φ (Shaped φ) (nested l) (nested l)) :
    Uniform φ (Shaped φ) (comparison nested levels) (comparison nested levels) := by
  refine (additive_uniform h).bind fun left left' hleft => ?_
  refine (uniform_accept _).bind fun found found' hfound => ?_
  cases hfound with
  | none => exact uniform_pure hleft
  | some hop =>
    refine (additive_uniform h).bind fun right right' hright => ?_
    refine uniform_current.bind fun t u ht => .ite (by rw [ht.kind]) ?_ ?_
    · exact uniform_throw (.unexpected _ ht)
    · exact uniform_pure (shaped_binary hop.1 hleft hright)

theorem disjunction_uniform (h : ∀ l ≤ levels, Uniform φ (Shaped φ) (nested l) (nested l)) :
    Uniform φ (Shaped φ) (disjunction nested levels) (disjunction nested levels) :=
  chain_uniform _ fun _ hl => chain_uniform _ fun _ hk =>
    comparison_uniform fun j hj => h j (Nat.le_trans hj (Nat.le_trans hk hl))

end Tiers

/-- Expressions of the same words have trees of one shape, or the same is wrong with them. -/
theorem expression_uniform (levels : Nat) :
    Uniform φ (Shaped φ) (expression levels) (expression levels) := by
  induction levels using Nat.strongRecOn with
  | ind levels ih =>
    cases levels with
    | zero => exact uniform_current.bind fun _ _ ht => uniform_throw (.tooDeep ht)
    | succ levels =>
      rw [expression_succ]
      exact disjunction_uniform fun l hl => ih l (by omega)

end Expressions

/-! ## Statements -/

section Statements

variable {φ : Span.Aspect}

theorem terminator_uniform (error : SyntaxError) :
    Uniform φ (Option.Rel fun t u => t.Alike φ u ∧ t.kind = .semicolon) (terminator error)
      (terminator error) := by
  refine (uniform_accept _).bind fun found found' hfound => ?_
  cases hfound with
  | some h => exact uniform_pure (.some ⟨h.1, List.mem_singleton.1 h.2⟩)
  | none =>
    exact uniform_current.bind fun t u ht =>
      .ite (by rw [ht.kind]) (uniform_pure .none) (uniform_throw (.unexpected error ht))

theorem terminated_uniform {n m : Node} (h : Shaped φ n m) {found found' : Option Token}
    (hfound : Option.Rel (fun t u => t.Alike φ u ∧ t.kind = .semicolon) found found') :
    Uniform φ (Shaped φ) (terminated n found) (terminated m found') := by
  cases hfound with
  | none => exact uniform_pure h
  | some ht =>
    obtain ⟨halike, hkind⟩ := ht
    simp only [terminated, halike.left hkind, halike.right (halike.kind ▸ hkind)]
    refine uniform_pure ?_
    simp only [Shaped, Node.mapSpan_withSpan, φ.merge, h.span, halike.place,
      show n.mapSpan φ.of = _ from h]

theorem declaration_uniform (levels : Nat) :
    Uniform φ (Shaped φ) (declaration levels) (declaration levels) := by
  refine uniform_advance.bind fun _ _ hword => (uniform_expect _ _).bind fun _ _ hname => ?_
  refine (uniform_expect _ _).bind fun _ _ _ => (expression_uniform levels).bind fun n m hn => ?_
  refine uniform_pure ?_
  simp only [Shaped, Node.mapSpan, φ.merge, hname.lexeme, hname.place, hword.place, hn.span,
    show n.mapSpan φ.of = _ from hn]

theorem statement_uniform (levels : Nat) :
    Uniform φ (Shaped φ) (statement levels) (statement levels) := by
  refine uniform_current.bind fun t u ht => .ite (by rw [ht.kind]) ?_ ?_
  · exact (declaration_uniform levels).bind fun _ _ hn => (terminator_uniform _).bind fun _ _ =>
      terminated_uniform hn
  · refine (expression_uniform levels).bind fun n m hn => (terminator_uniform _).bind fun _ _ =>
      terminated_uniform ?_
    simp only [Shaped, Node.mapSpan, hn.span, show n.mapSpan φ.of = _ from hn]

theorem rule_uniform (levels : Nat) : Uniform φ (Shaped φ) (rule levels) (rule levels) := by
  refine (expression_uniform levels).bind fun n m hn => (uniform_accept _).bind fun _ _ _ => ?_
  exact (uniform_expect _ _).bind fun _ _ _ => uniform_pure hn

/-- Programs of alike tokens have statements that agree one by one, and the same is wrong with
them. -/
theorem statements_uniform (levels count : Nat) {s s' : TokenStream} (hs : s.Alike φ s') :
    ShapedLists φ (statements levels count s).nodes (statements levels count s').nodes ∧
    List.Forall₂ (Fault.Alike φ) (statements levels count s).faults
      (statements levels count s').faults := by
  induction count generalizing s s' with
  | zero => exact ⟨rfl, .nil⟩
  | succ count ih =>
    unfold statements
    rw [hs.current.kind]
    split
    · exact ⟨rfl, .nil⟩
    · have hstatement := statement_uniform levels s s' hs
      generalize statement levels s = x, statement levels s' = y at hstatement
      cases hstatement with
      | ok hn hs => exact ⟨List.cons_eq_cons.2 ⟨hn, (ih hs).1⟩, (ih hs).2⟩
      | error he hs =>
        cases he with
        | unexpected error ht =>
          obtain ⟨hnodes, hfaults⟩ := ih hs.synchronize
          exact ⟨hnodes, .cons (.unexpected error ht) hfaults⟩
        | tooDeep ht => exact ⟨rfl, .cons (.tooDeep ht) .nil⟩

theorem allStatements_uniform (levels : Nat) {s s' : TokenStream} (hs : s.Alike φ s') :
    ShapedLists φ (allStatements levels s).nodes (allStatements levels s').nodes ∧
    List.Forall₂ (Fault.Alike φ) (allStatements levels s).faults
      (allStatements levels s').faults := by
  rw [allStatements, allStatements, hs.length_ahead]
  exact statements_uniform levels _ hs

/-- Programs of the same words have statements of one shape each, and the same is wrong with
them. -/
theorem allStatements_alike (levels : Nat) {s s' : TokenStream} (hs : s.Alike φ s') :
    (allStatements levels s).nodes.map Node.bare = (allStatements levels s').nodes.map Node.bare ∧
    List.Forall₂ (Fault.Alike φ) (allStatements levels s).faults
      (allStatements levels s').faults := by
  obtain ⟨hnodes, hfaults⟩ := allStatements_uniform levels hs
  refine ⟨?_, hfaults⟩
  have hbare := congrArg (List.map Node.bare) hnodes
  rw [List.map_map, List.map_map] at hbare
  simpa only [Function.comp_def, Node.bare_mapSpan] using hbare

end Statements

/-! ## Diagnostics -/

section Diagnostics

variable {φ : Span.Aspect}

theorem describe_alike {t u : Token} (h : t.Alike φ u) : describe t = describe u := by
  simp only [describe, h.kind, h.lexeme]

theorem wording_diagnostic? (limit : Number) {e f : Fault} (h : e.Alike φ f) :
    (e.diagnostic? limit).map Diagnostic.wording =
      (f.diagnostic? limit).map Diagnostic.wording := by
  cases h with
  | tooDeep h => rfl
  | unexpected error h =>
    simp only [Fault.diagnostic?, h.kind, describe_alike h]
    split <;> rfl

/-- What is reported about alike faults differs in its places only. -/
theorem wording_diagnose (o : Options) {faults faults' : List Fault}
    (h : List.Forall₂ (Fault.Alike φ) faults faults') :
    (o.diagnose faults).map Diagnostic.wording = (o.diagnose faults').map Diagnostic.wording := by
  simp only [Options.diagnose, List.map_filterMap]
  induction h with
  | nil => rfl
  | cons he hrest ih => simp only [List.filterMap_cons, wording_diagnostic? o.maxDepth he, ih]

end Diagnostics

end Grammar

end RuleLang
