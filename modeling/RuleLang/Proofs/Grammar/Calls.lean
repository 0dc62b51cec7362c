import RuleLang.Cursor
import RuleLang.Proofs.Grammar.Recovery

/-!
Nothing but the position is left of a call. A part of the parser that has `levels` levels left does
what the reader does with as many levels on the tokens from the position on, and leaves the counter
as it was (`Follows`). So a call comes to what it comes to for a parser that begins at the position,
whatever was called before (`read_afresh`).
-/
namespace RuleLang.Cursor

open Grammar

/-- No end mark stands from one position up to, not including, another one. -/
structure Passes (source : TokenStream) (p q : Nat) : Prop where
  le : p ≤ q
  inner : ∀ i, p ≤ i → i < q → (source.tokenAt i).kind ≠ .eof

namespace Passes

variable {source : TokenStream} {p q r : Nat}

theorem refl (source : TokenStream) (p : Nat) : Passes source p p :=
  ⟨Nat.le_refl p, fun _ _ _ => by omega⟩

theorem trans (h : Passes source p q) (h' : Passes source q r) : Passes source p r :=
  ⟨Nat.le_trans h.le h'.le, fun i hp hr =>
    (Nat.lt_or_ge i q).elim (h.inner i hp) fun hq => h'.inner i hq hr⟩

theorem one (h : (source.tokenAt p).kind ≠ .eof) : Passes source p (p + 1) :=
  ⟨Nat.le_succ p, fun i hp hi => by rwa [show i = p by omega]⟩

/-- The end is not passed. -/
theorem within (h : Passes source p q) (hp : p ≤ source.ahead.length) :
    q ≤ source.ahead.length := by
  rcases Nat.eq_or_lt_of_le h.le with rfl | hlt
  · exact hp
  · have := TokenStream.lt_length_of_tokenAt (h.inner (q - 1) (by omega) (by omega))
    omega

end Passes

section Parser

variable (source : TokenStream) (o : Options)

/-- The parser in a state does what a reader does: it passes the same tokens, gives the same value
or fault, and reports the fault. Its counter of levels is the same again. -/
inductive Agrees (σ : State) {α : Type} :
    EStateM.Result Fault TokenStream α → EStateM.Result Fault State α → Prop where
  | ok (a : α) {q : Nat} (h : Passes source σ.position q) :
      Agrees σ (.ok a (source.dropped q)) (.ok a { σ with position := q })
  | error (e : Fault) {q : Nat} (h : Passes source σ.position q) :
      Agrees σ (.error e (source.dropped q))
        (.error e ⟨q, σ.depth, σ.diagnostics ++ o.diagnose [e]⟩)

/-- With so many levels left, the action does what the reader does. -/
def Follows (levels : Nat) {α : Type} (r : Action α) (f : Reader α) : Prop :=
  ∀ σ : State, σ.depth + levels = o.levels → Agrees source o σ (f (source.dropped σ.position)) (r σ)

variable {source o} {α β : Type} {levels : Nat} {σ : State}

theorem Agrees.of_passes {q : Nat} {x : EStateM.Result Fault TokenStream α}
    {y : EStateM.Result Fault State α} (hq : Passes source σ.position q)
    (h : Agrees source o { σ with position := q } x y) : Agrees source o σ x y := by
  cases h with
  | ok a h => exact .ok a (hq.trans h)
  | error e h => exact .error e (hq.trans h)

theorem Agrees.withDepth {depth : Nat} {x : EStateM.Result Fault TokenStream α}
    {y : EStateM.Result Fault State α} (h : Agrees source o { σ with depth := depth } x y) :
    Agrees source o σ x (withDepth σ.depth y) := by
  cases h with
  | ok a h => exact .ok a h
  | error e h => exact .error e h

theorem follows_pure (a : α) : Follows source o levels (pure a) (pure a) :=
  fun _ _ => .ok a (.refl ..)

theorem follows_fail (e : Fault) : Follows source o levels (fail o e : Action α) (throw e) :=
  fun _ _ => .error e (.refl ..)

theorem Follows.bind {r : Action α} {f : Reader α} {g : α → Action β} {k : α → Reader β}
    (hr : Follows source o levels r f) (hg : ∀ a, Follows source o levels (g a) (k a)) :
    Follows source o levels (r >>= g) (f >>= k) := by
  intro σ hσ
  have hfirst := hr σ hσ
  change Agrees source o σ (EStateM.bind f k _) (EStateM.bind r g σ)
  unfold EStateM.bind
  generalize f (source.dropped σ.position) = x, r σ = y at hfirst
  cases hfirst with
  | @ok a q h => exact .of_passes h (hg a { σ with position := q } hσ)
  | error e h => exact .error e h

theorem Follows.ite {p : Prop} [Decidable p] {r r' : Action α} {f f' : Reader α}
    (h : Follows source o levels r f) (h' : Follows source o levels r' f') :
    Follows source o levels (if p then r else r') (if p then f else f') := by
  split
  · exact h
  · exact h'

/-! ## Tokens -/

theorem follows_current : Follows source o levels (current source) Reader.current := by
  intro σ _
  rw [Reader.current, TokenStream.current_dropped]
  exact .ok _ (.refl ..)

theorem follows_advance : Follows source o levels (advance source) Reader.advance := by
  intro σ _
  rw [Reader.advance, TokenStream.current_dropped, advance]
  by_cases h : (source.tokenAt σ.position).kind = .eof
  · rw [advance_eq_self (by rwa [TokenStream.current_dropped])]
    simp only [h, if_true]
    exact .ok _ (.refl ..)
  · rw [TokenStream.advance_dropped h]
    simp only [h, if_false]
    exact .ok _ (.one h)

theorem follows_remaining : Follows source o levels (remaining source) Reader.remaining := by
  intro σ _
  have hlength : (source.dropped σ.position).ahead.length = source.ahead.length - σ.position :=
    List.length_drop
  rw [Reader.remaining, hlength]
  exact .ok _ (.refl ..)

theorem follows_accept (kinds : List Token.Kind) :
    Follows source o levels (accept source kinds) (Reader.accept kinds) := by
  have hreader : Reader.accept kinds = (do
      if (← Reader.current).kind ∈ kinds then return some (← Reader.advance)
      else return none : Reader (Option Token)) := by
    funext s
    change Reader.accept kinds s = (if s.current.kind ∈ kinds then _ else _ : Reader _) s
    by_cases h : s.current.kind ∈ kinds
    · rw [Reader.accept, if_pos h, if_pos h]
      rfl
    · rw [Reader.accept, if_neg h, if_neg h]
      rfl
  rw [hreader]
  exact follows_current.bind fun t =>
    .ite (follows_advance.bind fun t => follows_pure (some t)) (follows_pure none)

theorem follows_expect (kind : Token.Kind) (error : SyntaxError) :
    Follows source o levels (expect source o kind error) (Reader.expect kind error) := by
  have hreader : Reader.expect kind error = (do
      let t ← Reader.current
      if t.kind = kind then Reader.advance else throw (.unexpected error t) : Reader Token) := by
    funext s
    change Reader.expect kind error s = (if s.current.kind = kind then _ else _ : Reader _) s
    by_cases h : s.current.kind = kind
    · rw [Reader.expect, if_pos h, if_pos h]
      rfl
    · rw [Reader.expect, if_neg h, if_neg h]
      rfl
  rw [hreader]
  exact follows_current.bind fun t => .ite follows_advance (follows_fail _)

/-! ## Levels -/

/-- A level is entered if there is one left. -/
theorem nest_ok (σ : State) (t : Token) (h : σ.depth + (levels + 1) = o.levels) :
    nest o t σ = .ok () { σ with depth := σ.depth + 1 } := by
  have hleft : ¬o.maxDepth.value < (σ.depth + 1 : Nat) := by
    simp only [Options.levels] at h
    omega
  exact if_neg hleft

theorem nest_error (σ : State) (t : Token) (h : σ.depth + 0 = o.levels) :
    nest o t σ = .error (.tooDeep t)
      ⟨σ.position, σ.depth + 1, σ.diagnostics ++ o.diagnose [.tooDeep t]⟩ := by
  have hnone : o.maxDepth.value < (σ.depth + 1 : Nat) := by
    simp only [Options.levels] at h
    omega
  exact if_pos hnone

theorem withDepth_withDepth (d d' : Nat) (x : EStateM.Result Fault State α) :
    withDepth d (withDepth d' x) = withDepth d x := by
  cases x <;> rfl

theorem action_bind_ok {r : Action α} {g : α → Action β} {τ : State} {a : α}
    (h : r σ = .ok a τ) : (r >>= g) σ = g a τ := by
  change EStateM.bind r g σ = g a τ
  simp only [EStateM.bind, h]

theorem action_bind_error {r : Action α} {g : α → Action β} {τ : State} {e : Fault}
    (h : r σ = .error e τ) : (r >>= g) σ = .error e τ := by
  change EStateM.bind r g σ = .error e τ
  simp only [EStateM.bind, h]

/-- Two actions in a row of which the second one need not leave the counter as it was, as it is set
back behind it. -/
theorem Agrees.bind_withDepth {f : Reader α} {r : Action α} {k : α → Reader β} {g : α → Action β}
    {depth : Nat} (h : Agrees source o σ (f (source.dropped σ.position)) (r σ))
    (hg : ∀ a q, Agrees source o ⟨q, depth, σ.diagnostics⟩ (k a (source.dropped q))
      (Cursor.withDepth depth (g a { σ with position := q }))) :
    Agrees source o { σ with depth := depth } ((f >>= k) (source.dropped σ.position))
      (Cursor.withDepth depth ((r >>= g) σ)) := by
  generalize hf : f (source.dropped σ.position) = x, hr : r σ = y at h
  cases h with
  | error e hq =>
    rw [bind_of_error hf, action_bind_error hr]
    exact .error e hq
  | @ok a q hq =>
    rw [bind_of_ok hf, action_bind_ok hr]
    exact .of_passes hq (hg a q)

/-- The rest of a chain takes a level for each operator; set back, its counter is the same again. -/
theorem foldFrom_agrees {operand : Action Node} {reader : Nat → Reader Node}
    {kinds : List Token.Kind} (h : ∀ l ≤ levels, Follows source o l operand (reader l))
    {count : Nat} (hcount : levels ≤ count) (left : Node) (hσ : σ.depth + levels = o.levels) :
    Agrees source o σ (chainFrom reader kinds levels left (source.dropped σ.position))
      (withDepth σ.depth (foldFrom source o operand kinds count left σ)) := by
  induction levels generalizing σ left count with
  | zero =>
    unfold chainFrom foldFrom
    refine (follows_accept kinds σ hσ).bind_withDepth fun found q => ?_
    cases found with
    | none => exact .ok left (.refl ..)
    | some operator =>
      dsimp only
      rw [action_bind_error (nest_error { σ with position := q } operator hσ)]
      exact .error _ (.refl ..)
  | succ levels ih =>
    obtain ⟨count, rfl⟩ : ∃ n, count = n + 1 := ⟨count - 1, by omega⟩
    unfold chainFrom foldFrom
    refine (follows_accept kinds σ hσ).bind_withDepth fun found q => ?_
    cases found with
    | none => exact .ok left (.refl ..)
    | some operator =>
      dsimp only
      rw [action_bind_ok (nest_ok { σ with position := q } operator hσ)]
      have hdeeper : σ.depth + 1 + levels = o.levels := by omega
      have hoperand := h levels (Nat.le_succ _) ⟨q, σ.depth + 1, σ.diagnostics⟩ hdeeper
      refine hoperand.bind_withDepth fun right q' => ?_
      have hrest : Agrees source o ⟨q', σ.depth + 1, σ.diagnostics⟩ _ _ :=
        ih (fun l hl => h l (Nat.le_succ_of_le hl)) (Nat.le_of_succ_le_succ hcount)
          (binary operator left right) hdeeper
      rw [← withDepth_withDepth σ.depth (σ.depth + 1)]
      exact Agrees.withDepth (σ := ⟨q', σ.depth, σ.diagnostics⟩) hrest

theorem follows_fold {operand : Action Node} {reader : Nat → Reader Node} {kinds : List Token.Kind}
    (h : ∀ l ≤ levels, Follows source o l operand (reader l)) :
    Follows source o levels (fold source o operand kinds) (chain reader kinds levels) := by
  intro σ hσ
  have hle : levels ≤ o.levels := by omega
  unfold fold restoring chain
  exact (h levels (Nat.le_refl _) σ hσ).bind_withDepth fun left q =>
    foldFrom_agrees (σ := { σ with position := q }) h hle left hσ

/-! ## Expressions -/

section Tiers

variable {nested : Action Node} {reader : Nat → Reader Node}

theorem follows_moreArguments (h : Follows source o levels nested (reader levels)) (count : Nat) :
    Follows source o levels (moreArguments source nested count)
      (Grammar.moreArguments reader levels count) := by
  induction count with
  | zero => exact follows_pure []
  | succ count ih =>
    unfold moreArguments Grammar.moreArguments
    refine (follows_accept _).bind fun found => ?_
    cases found with
    | none => exact follows_pure []
    | some comma => exact h.bind fun argument => ih.bind fun more => follows_pure _

theorem follows_arguments (h : Follows source o levels nested (reader levels)) :
    Follows source o levels (arguments source nested) (Grammar.arguments reader levels) :=
  follows_current.bind fun _ => .ite (follows_pure []) <| h.bind fun _ =>
    follows_remaining.bind fun count => (follows_moreArguments h count).bind fun _ => follows_pure _

theorem follows_call (h : Follows source o levels nested (reader levels)) (callee : Node) :
    Follows source o levels (call source o nested callee) (Grammar.call reader callee levels) :=
  follows_advance.bind fun _ => (follows_arguments h).bind fun _ =>
    (follows_expect _ _).bind fun _ => follows_pure _

theorem follows_primary (h : Follows source o levels nested (reader levels)) :
    Follows source o levels (primary source o nested) (Grammar.primary reader levels) := by
  refine follows_current.bind fun t => ?_
  cases t.kind with
  | number | string | true | false => exact follows_advance.bind fun _ => follows_pure _
  | ident =>
    exact follows_advance.bind fun _ => follows_current.bind fun _ =>
      .ite (follows_call h _) (follows_pure _)
  | lparen =>
    exact follows_advance.bind fun _ => h.bind fun _ => (follows_expect _ _).bind fun _ =>
      follows_pure _
  | _ => exact follows_fail _

theorem follows_unary (h : Follows source o levels nested (reader levels)) :
    Follows source o levels (unary source o nested) (Grammar.unary reader levels) := by
  refine (follows_accept _).bind fun found => ?_
  cases found with
  | none => exact follows_primary h
  | some operator => exact (follows_primary h).bind fun _ => follows_pure _

theorem follows_additive (h : ∀ l ≤ levels, Follows source o l nested (reader l)) :
    Follows source o levels (additive source o nested) (Grammar.additive reader levels) :=
  follows_fold fun _ hl => follows_fold fun k hk => follows_unary (h k (Nat.le_trans hk hl))

theorem follows_comparison (h : ∀ l ≤ levels, Follows source o l nested (reader l)) :
    Follows source o levels (comparison source o nested) (Grammar.comparison reader levels) := by
  refine (follows_additive h).bind fun left => (follows_accept _).bind fun found => ?_
  cases found with
  | none => exact follows_pure left
  | some operator =>
    exact (follows_additive h).bind fun _ => follows_current.bind fun _ =>
      .ite (follows_fail _) (follows_pure _)

theorem follows_disjunction (h : ∀ l ≤ levels, Follows source o l nested (reader l)) :
    Follows source o levels (disjunction source o nested) (Grammar.disjunction reader levels) :=
  follows_fold fun _ hl => follows_fold fun _ hk =>
    follows_comparison fun j hj => h j (Nat.le_trans hj (Nat.le_trans hk hl))

end Tiers

/-- An expression enters its level, reads a disjunction, and sets the counter back. -/
theorem follows_expressionWithin {count : Nat} (h : levels < count) :
    Follows source o levels (expressionWithin source o count) (Grammar.expression levels) := by
  induction count generalizing levels with
  | zero => omega
  | succ count ih =>
    intro σ hσ
    unfold expressionWithin restoring
    rw [action_bind_ok (show current source σ = .ok _ σ from rfl)]
    cases levels with
    | zero =>
      rw [action_bind_error (nest_error σ _ hσ), ← TokenStream.current_dropped]
      exact .error _ (.refl ..)
    | succ levels =>
      rw [action_bind_ok (nest_ok σ _ hσ), expression_succ]
      have hdeeper : σ.depth + 1 + levels = o.levels := by omega
      have hbody : Agrees source o { σ with depth := σ.depth + 1 } _ _ :=
        follows_disjunction (fun l hl => ih (by omega)) _ hdeeper
      exact hbody.withDepth

theorem follows_expression (h : levels ≤ o.levels) :
    Follows source o levels (expression source o) (Grammar.expression levels) :=
  follows_expressionWithin (Nat.lt_succ_of_le h)

/-! ## Statements -/

theorem follows_terminator (error : SyntaxError) :
    Follows source o levels (terminator source o error) (Grammar.terminator error) := by
  refine (follows_accept _).bind fun found => ?_
  cases found with
  | some t => exact follows_pure _
  | none => exact follows_current.bind fun _ => .ite (follows_pure none) (follows_fail _)

theorem follows_terminated (statement : Node) (found : Option Token) :
    Follows source o levels (terminated o statement found)
      (Grammar.terminated statement found) := by
  cases found with
  | none => exact follows_pure statement
  | some t =>
    simp only [terminated, Grammar.terminated]
    cases t.span.isEmpty with
    | error e => exact follows_fail _
    | ok empty => cases empty <;> exact follows_pure _

theorem follows_declaration (h : levels ≤ o.levels) :
    Follows source o levels (declaration source o) (Grammar.declaration levels) :=
  follows_advance.bind fun _ => (follows_expect _ _).bind fun _ =>
    (follows_expect _ _).bind fun _ => (follows_expression h).bind fun _ => follows_pure _

theorem follows_statement (h : levels ≤ o.levels) :
    Follows source o levels (statement source o) (Grammar.statement levels) := by
  refine follows_current.bind fun t => .ite ?_ ?_
  · exact (follows_declaration h).bind fun _ => (follows_terminator _).bind fun _ =>
      follows_terminated _ _
  · exact (follows_expression h).bind fun _ => (follows_terminator _).bind fun _ =>
      follows_terminated _ _

theorem follows_rule (h : levels ≤ o.levels) :
    Follows source o levels (rule source o) (Grammar.rule levels) :=
  (follows_expression h).bind fun _ => (follows_accept _).bind fun _ =>
    (follows_expect _ _).bind fun _ => follows_pure _

/-! ## Programs -/

/-- A stream goes on behind a semicolon, and stays at an end mark. -/
theorem synchronize_step (s : TokenStream) : s.synchronize =
    if s.current.kind = .eof then s
    else if s.current.kind = .semicolon then s.advance else s.advance.synchronize := by
  obtain ⟨ahead, last, eof⟩ := s
  cases ahead with
  | nil => exact (if_pos eof).symm
  | cons t rest =>
    change TokenStream.synchronize ⟨t :: rest, last, eof⟩ = if t.kind = .eof then _ else _
    by_cases ht : t.kind = .eof
    · simp [TokenStream.synchronize, TokenStream.behindSemicolon, ht]
    · by_cases hsemicolon : t.kind = .semicolon <;>
        simp [TokenStream.synchronize, TokenStream.behindSemicolon, TokenStream.advance,
          TokenStream.current, ht, hsemicolon]

/-- Going on behind a faulty statement changes the position only. -/
theorem synchronize_agrees (source : TokenStream) (σ : State) :
    ∃ q, Passes source σ.position q ∧ synchronize source σ = { σ with position := q } ∧
      (source.dropped σ.position).synchronize = source.dropped q := by
  fun_induction synchronize source σ with
  | case1 σ heof =>
    rw [synchronize_step, TokenStream.current_dropped, if_pos heof]
    exact ⟨_, .refl .., rfl, rfl⟩
  | case2 σ heof passed hsemicolon =>
    rw [synchronize_step, TokenStream.current_dropped, if_neg heof, if_pos hsemicolon,
      TokenStream.advance_dropped heof]
    exact ⟨_, .one heof, rfl, rfl⟩
  | case3 σ heof passed hsemicolon ih =>
    rw [synchronize_step, TokenStream.current_dropped, if_neg heof, if_neg hsemicolon,
      TokenStream.advance_dropped heof]
    obtain ⟨q, hq, hstate, hstream⟩ := ih
    exact ⟨q, (Passes.one heof).trans hq, hstate, hstream⟩

/-- What a parser comes to that has read statements: unless a statement could not be measured, these
are all it tells. -/
def ofStatements (read : Statements) (τ : State) : EStateM.Result Fault State (List Node) :=
  match read.faults.getLast? with
  | some (.unmeasured e t) => .error (.unmeasured e t) τ
  | _ => .ok read.nodes τ

theorem ofStatements_cons_node (node : Node) (read : Statements) (τ : State) :
    ofStatements { read with nodes := node :: read.nodes } τ =
      withNode node (ofStatements read τ) := by
  simp only [ofStatements]
  split <;> rfl

/-- A fault from which reading goes on is not told. -/
theorem ofStatements_cons_fault (error : SyntaxError) (t : Token) (read : Statements) (τ : State) :
    ofStatements { read with faults := .unexpected error t :: read.faults } τ =
      ofStatements read τ := by
  obtain ⟨nodes, faults, rest⟩ := read
  cases faults with
  | nil => rfl
  | cons f fs => simp only [ofStatements, List.getLast?_cons_cons]

theorem diagnose_cons (f : Fault) (fs : List Fault) :
    o.diagnose (f :: fs) = o.diagnose [f] ++ o.diagnose fs := by
  rw [Options.diagnose, List.filterMap_cons, Options.diagnose, List.filterMap_cons]
  split <;> rfl

theorem statements_agree (source : TokenStream) (o : Options) (count p : Nat)
    (reported : List Diagnostic) :
    let read := Grammar.statements o.levels count (source.dropped p)
    ∃ q, Passes source p q ∧ read.rest = source.dropped q ∧
      statements source o count ⟨p, 0, reported⟩ =
        ofStatements read ⟨q, 0, reported ++ o.diagnose read.faults⟩ := by
  have hnone (p : Nat) (reported : List Diagnostic) :
      ofStatements ⟨[], [], source.dropped p⟩ ⟨p, 0, reported ++ o.diagnose []⟩ =
        .ok [] ⟨p, 0, reported⟩ := by
    simp [ofStatements, Options.diagnose]
  induction count generalizing p reported with
  | zero => exact ⟨p, .refl .., rfl, (hnone p reported).symm⟩
  | succ count ih =>
    unfold statements Grammar.statements
    rw [TokenStream.current_dropped]
    by_cases heof : (source.tokenAt p).kind = .eof
    · rw [if_pos heof, if_pos heof]
      exact ⟨p, .refl .., rfl, (hnone p reported).symm⟩
    · rw [if_neg heof, if_neg heof]
      have hstatement : Agrees source o ⟨p, 0, reported⟩ _ _ :=
        follows_statement (Nat.le_refl _) _ (Nat.zero_add _)
      generalize Grammar.statement o.levels (source.dropped p) = x,
        statement source o ⟨p, 0, reported⟩ = y at hstatement
      cases hstatement with
      | @ok node q hq =>
        obtain ⟨q', hq', hrest, hmore⟩ := ih q reported
        refine ⟨q', hq.trans hq', hrest, ?_⟩
        dsimp only
        rw [hmore, ofStatements_cons_node]
      | @error e q hq =>
        cases e with
        | tooDeep t => exact ⟨q, hq, rfl, rfl⟩
        | unmeasured e t => exact ⟨q, hq, rfl, rfl⟩
        | unexpected error t =>
          obtain ⟨q', hq', hstate, hstream⟩ := synchronize_agrees source
            ⟨q, 0, reported ++ o.diagnose [.unexpected error t]⟩
          obtain ⟨q'', hq'', hrest, hmore⟩ :=
            ih q' (reported ++ o.diagnose [.unexpected error t])
          have hgo : (Fault.unexpected error t).isRecoverable = true := rfl
          simp only [hgo, if_true, hstate, hstream]
          refine ⟨q'', hq.trans (hq'.trans hq''), hrest, ?_⟩
          rw [hmore, ofStatements_cons_fault, List.append_assoc, ← diagnose_cons]

/-! ## Calls -/

theorem told_eq {x : EStateM.Result Fault TokenStream Node} {y : EStateM.Result Fault State Node}
    (h : Agrees source o σ x y) : ∃ q, Passes source σ.position q ∧
      (Attempt.ofResult x).rest = source.dropped q ∧ told y = ((Attempt.ofResult x).outcome,
        ⟨q, σ.depth, σ.diagnostics ++ o.diagnose (Attempt.ofResult x).faults⟩) := by
  cases h with
  | ok node hq =>
    refine ⟨_, hq, rfl, ?_⟩
    simp [told, Attempt.ofResult, Options.diagnose]
  | error e hq => exact ⟨_, hq, rfl, rfl⟩

/-- No token has to be measured for a rule. -/
theorem rule_error_ne {s s' : TokenStream} {e : Span.LengthError} {t : Token} :
    Grammar.rule levels s ≠ .error (.unmeasured e t) s' :=
  fun h => rule_isAmong h

theorem untold_eq {x : EStateM.Result Fault TokenStream Node} {y : EStateM.Result Fault State Node}
    (h : Agrees source o σ x y) (hx : ∀ e t s', x ≠ .error (.unmeasured e t) s') :
    ∃ q, Passes source σ.position q ∧ (Attempt.orNothing x).rest = source.dropped q ∧
      untold y = ((Attempt.orNothing x).outcome,
        ⟨q, σ.depth, σ.diagnostics ++ o.diagnose (Attempt.orNothing x).faults⟩) := by
  cases h with
  | ok node hq =>
    refine ⟨_, hq, rfl, ?_⟩
    simp [untold, Attempt.orNothing, Options.diagnose]
  | error e hq =>
    cases e with
    | unmeasured e t => exact absurd rfl (hx e t _)
    | unexpected error t | tooDeep t => exact ⟨_, hq, rfl, rfl⟩

theorem attempt_ofStatements (last : Token) (read : Statements) :
    (Attempt.ofStatements last read).faults = read.faults ∧
      (Attempt.ofStatements last read).rest = read.rest := by
  unfold Attempt.ofStatements
  split <;> exact ⟨rfl, rfl⟩

/-- The statements that were read, as a program. -/
def ofNodes (last : Token) :
    EStateM.Result Fault State (List Node) → EStateM.Result Fault State Node
  | .ok nodes τ => .ok (.program nodes (wholeSpan last)) τ
  | .error fault τ => .error fault τ

theorem told_ofStatements (last : Token) (read : Statements) (τ : State) :
    told (ofNodes last (ofStatements read τ)) = ((Attempt.ofStatements last read).outcome, τ) := by
  unfold ofStatements Attempt.ofStatements
  cases read.faults.getLast? with
  | none => rfl
  | some f => cases f <;> rfl

theorem program_apply (source : TokenStream) (o : Options) (p : Nat) (reported : List Diagnostic) :
    program source o ⟨p, 0, reported⟩ = ofNodes source.last
      (statements source o (source.dropped p).ahead.length ⟨p, 0, reported⟩) := by
  have hremaining : remaining source ⟨p, 0, reported⟩ =
      .ok (source.dropped p).ahead.length ⟨p, 0, reported⟩ := by
    rw [remaining, TokenStream.dropped, List.length_drop]
  unfold program
  rw [action_bind_ok hremaining]
  cases h : statements source o (source.dropped p).ahead.length ⟨p, 0, reported⟩ with
  | ok nodes τ =>
    rw [action_bind_ok h]
    rfl
  | error fault τ =>
    rw [action_bind_error h]
    rfl

/-- A call comes to what the goal comes to on the tokens from the position on. -/
theorem read_agrees (source : TokenStream) (o : Options) (goal : Goal) (p : Nat)
    (reported : List Diagnostic) :
    let attempt := goal.read o.levels (source.dropped p)
    ∃ q, Passes source p q ∧ attempt.rest = source.dropped q ∧
      read source o ⟨p, 0, reported⟩ goal =
        (attempt.outcome, ⟨q, 0, reported ++ o.diagnose attempt.faults⟩) := by
  have hlevels := Nat.le_refl o.levels
  have hdepth := Nat.zero_add o.levels
  cases goal with
  | statement => exact told_eq (follows_statement hlevels ⟨p, 0, reported⟩ hdepth)
  | expression => exact told_eq (follows_expression hlevels ⟨p, 0, reported⟩ hdepth)
  | rule =>
    exact untold_eq (follows_rule hlevels ⟨p, 0, reported⟩ hdepth) fun _ _ _ => rule_error_ne
  | program =>
    obtain ⟨q, hq, hrest, hread⟩ :=
      statements_agree source o (source.dropped p).ahead.length p reported
    obtain ⟨hfaults, hleft⟩ :=
      attempt_ofStatements source.last (allStatements o.levels (source.dropped p))
    refine ⟨q, hq, hleft.trans hrest, ?_⟩
    rw [read, program_apply, hread, told_ofStatements]
    exact congrArg _ (congrArg _ (congrArg _ (congrArg _ hfaults.symm)))

/-- Between calls the counter of levels is zero, and the position is not behind the end. -/
theorem readAll_spec (source : TokenStream) (o : Options) (goals : List Goal) (p : Nat)
    (reported : List Diagnostic) : ∃ q found, Passes source p q ∧
      readAll source o ⟨p, 0, reported⟩ goals = ⟨q, 0, found⟩ := by
  induction goals generalizing p reported with
  | nil => exact ⟨p, reported, .refl .., rfl⟩
  | cons goal goals ih =>
    obtain ⟨q, hq, -, hread⟩ := read_agrees source o goal p reported
    obtain ⟨r, found, hr, hall⟩ := ih q (reported ++ o.diagnose
      (goal.read o.levels (source.dropped p)).faults)
    refine ⟨r, found, hq.trans hr, ?_⟩
    rw [readAll, hread, hall]

/-- The stream from a position on tells how far the position has come. -/
theorem dropped_inj {p q : Nat} (hp : p ≤ source.ahead.length) (hq : q ≤ source.ahead.length)
    (h : source.dropped p = source.dropped q) : p = q := by
  have hlength := congrArg (·.ahead.length) h
  simp only [TokenStream.dropped, List.length_drop] at hlength
  omega

theorem Passes.ne_eof_of_mem_take {q : Nat} (h : Passes source 0 q) :
    ∀ t ∈ source.ahead.take q, t.kind ≠ .eof := by
  intro t ht
  obtain ⟨i, hi, hget⟩ := List.mem_take_iff_getElem.1 ht
  have htoken : source.tokenAt i = t := by
    rw [TokenStream.tokenAt, List.getElem?_eq_getElem (by omega), Option.getD_some, hget]
  rw [← htoken]
  exact h.inner i (Nat.zero_le i) (by omega)

/-- Whatever a parser was called for before, its counter of levels is zero, and a call comes to what
it comes to for a new parser of the tokens from its position on, which is what the goal comes to on
them. Both pass as many tokens, none of which is an end mark, and report the same. -/
theorem read_afresh (source : TokenStream) (o : Options) (reported : List Diagnostic)
    (goals : List Goal) (goal : Goal) :
    let σ := readAll source o ⟨0, 0, reported⟩ goals
    let ahead := source.dropped σ.position
    let attempt := goal.read o.levels ahead
    let found := o.diagnose attempt.faults
    σ.depth = 0 ∧
    ∃ passed, σ.position + passed ≤ source.ahead.length ∧
      (∀ t ∈ ahead.ahead.take passed, t.kind ≠ .eof) ∧
      attempt.rest = ahead.dropped passed ∧
      read ahead o ⟨0, 0, []⟩ goal = (attempt.outcome, ⟨passed, 0, found⟩) ∧
      read source o σ goal =
        (attempt.outcome, ⟨σ.position + passed, 0, σ.diagnostics ++ found⟩) := by
  obtain ⟨p, before, hp, hσ⟩ := readAll_spec source o goals 0 reported
  rw [hσ]
  obtain ⟨q, hq, hrest, hread⟩ := read_agrees source o goal p before
  obtain ⟨passed, hpassed, hleft, hfresh⟩ := read_agrees (source.dropped p) o goal 0 []
  change (goal.read o.levels (source.dropped p)).rest = _ at hleft
  have hp := hp.within (Nat.zero_le _)
  have hq := hq.within hp
  have hpassed' := hpassed.within (Nat.zero_le _)
  have hlength : (source.dropped p).ahead.length = source.ahead.length - p := List.length_drop
  obtain rfl : q = p + passed := by
    refine dropped_inj hq (by omega) ?_
    rw [← hrest, hleft, TokenStream.dropped, TokenStream.dropped, TokenStream.dropped,
      List.drop_drop]
  exact ⟨rfl, passed, hq, hpassed.ne_eof_of_mem_take, hleft, hfresh, hread⟩

end Parser

end RuleLang.Cursor
