import RuleLang.Proofs.Grammar.Recovery

/-!
One token of lookahead. What a reader does is settled by the tokens it takes and the one behind
them: in front of every other stream that begins with that token it does the same
(`expression_looks`, `statement_looks`). So what is wrong with a source is wrong with every source
that goes on differently behind the token at which the fault is found.
-/
namespace RuleLang

/-- Streams that begin with the same token do so behind the same tokens as well. -/
theorem TokenStream.current_prepend_congr {s u : TokenStream} (h : u.current = s.current)
    (ts : List Token) : (u.prepend ts).current = (s.prepend ts).current := by
  cases ts with
  | nil => exact h
  | cons t ts => rfl

namespace Grammar

open Reader

/-- The reader takes tokens from the front of the stream; in front of every stream that begins with
the next one, it does the same with them. -/
inductive LooksAt {α : Type} (r : Reader α) (s : TokenStream) : Prop where
  | ok (a : α) (pre : List Token) (s' : TokenStream) (taken : s = s'.prepend pre)
      (same : ∀ u : TokenStream, u.current = s'.current → r (u.prepend pre) = .ok a u)
  | error (f : Fault) (pre : List Token) (s' : TokenStream) (taken : s = s'.prepend pre)
      (same : ∀ u : TokenStream, u.current = s'.current → r (u.prepend pre) = .error f u)

/-- The reader looks no further than at the token behind those that it takes. -/
def Looks {α : Type} (r : Reader α) : Prop := ∀ s : TokenStream, LooksAt r s

section Steps

variable {α β : Type} {s s' : TokenStream}

/-- A reader that gives a value has taken tokens from the front. -/
theorem Looks.exists_prepend {r : Reader α} (h : Looks r) {a : α} (hr : r s = .ok a s') :
    ∃ pre, s = s'.prepend pre := by
  cases h s with
  | ok b pre u taken same =>
    have hread : r s = .ok b u := taken ▸ same u rfl
    cases hread.symm.trans hr
    exact ⟨pre, taken⟩
  | error f pre u taken same =>
    have hread : r s = .error f u := taken ▸ same u rfl
    cases hread.symm.trans hr

/-- What is wrong with the tokens taken and the next one is wrong with them in every stream. -/
theorem Looks.same_error {r : Reader α} (h : Looks r) {f : Fault} {pre : List Token}
    (hr : r (s.prepend pre) = .error f s) {u : TokenStream} (hu : u.current = s.current) :
    r (u.prepend pre) = .error f u := by
  cases h (s.prepend pre) with
  | ok a more v taken same =>
    have hread : r (s.prepend pre) = .ok a v := taken ▸ same v rfl
    cases hread.symm.trans hr
  | error g more v taken same =>
    have hread : r (s.prepend pre) = .error g v := taken ▸ same v rfl
    cases hread.symm.trans hr
    obtain rfl : pre = more := List.append_cancel_right (congrArg TokenStream.ahead taken)
    exact same u hu

/-- A reader that goes on where a first one ended. -/
theorem LooksAt.bind {r : Reader α} {f : α → Reader β} (hr : LooksAt r s)
    (hf : ∀ a s', r s = .ok a s' → LooksAt (f a) s') : LooksAt (r >>= f) s := by
  cases hr with
  | error e pre u taken same => exact .error e pre u taken fun v hv => bind_of_error (same v hv)
  | ok a pre u taken same =>
    have hread : r s = .ok a u := taken ▸ same u rfl
    -- Behind the tokens of the second reader, the first one still finds the token it looked at.
    have hfirst {more : List Token} {w : TokenStream} (hmore : u = w.prepend more)
        (v : TokenStream) (hv : v.current = w.current) :
        (r >>= f) (v.prepend (pre ++ more)) = f a (v.prepend more) := by
      have hcurrent : (v.prepend more).current = u.current :=
        hmore ▸ TokenStream.current_prepend_congr hv more
      rw [TokenStream.prepend_append, bind_of_ok (same _ hcurrent)]
    cases hf a u hread with
    | ok b more w taken' same' =>
      refine .ok b (pre ++ more) w ?_ fun v hv => (hfirst taken' v hv).trans (same' v hv)
      rw [taken, taken', TokenStream.prepend_append]
    | error e more w taken' same' =>
      refine .error e (pre ++ more) w ?_ fun v hv => (hfirst taken' v hv).trans (same' v hv)
      rw [taken, taken', TokenStream.prepend_append]

theorem Looks.bind {r : Reader α} {f : α → Reader β} (hr : Looks r) (hf : ∀ a, Looks (f a)) :
    Looks (r >>= f) :=
  fun s => (hr s).bind fun a s' _ => hf a s'

theorem looks_pure (a : α) : Looks (pure a) :=
  fun s => .ok a [] s rfl fun _ _ => rfl

theorem looks_throw (f : Fault) : Looks (throw f : Reader α) :=
  fun s => .error f [] s rfl fun _ _ => rfl

theorem looks_current : Looks current :=
  fun s => .ok s.current [] s rfl fun _ hu => congrArg (EStateM.Result.ok · _) hu

theorem looks_advance : Looks advance := by
  intro s
  by_cases heof : s.current.kind = .eof
  · refine .ok s.current [] s rfl fun u hu => ?_
    rw [TokenStream.prepend_nil, advance, advance_eq_self (hu ▸ heof), hu]
  · exact .ok s.current [s.current] s.advance (TokenStream.prepend_advance heof).symm
      fun u _ => advance_apply_prepend_cons heof [] u

theorem looks_accept {kinds : List Token.Kind} (heof : Token.Kind.eof ∉ kinds) :
    Looks (accept kinds) := by
  intro s
  by_cases hkind : s.current.kind ∈ kinds
  · have hne : s.current.kind ≠ .eof := fun h => heof (h ▸ hkind)
    exact .ok (some s.current) [s.current] s.advance (TokenStream.prepend_advance hne).symm
      fun u _ => accept_prepend_cons hkind hne [] u
  · exact .ok none [] s rfl fun u hu => accept_of_not_mem (hu ▸ hkind)

theorem looks_expect {kind : Token.Kind} (heof : kind ≠ .eof) (e : SyntaxError) :
    Looks (expect kind e) := by
  intro s
  by_cases hkind : s.current.kind = kind
  · have hne : s.current.kind ≠ .eof := hkind ▸ heof
    exact .ok s.current [s.current] s.advance (TokenStream.prepend_advance hne).symm
      fun u _ => expect_prepend_cons hkind heof e [] u
  · refine .error (.unexpected e s.current) [] s rfl fun u hu => ?_
    rw [TokenStream.prepend_nil, expect, hu, if_neg hkind]

end Steps

/-! ## Expressions -/

theorem chainFrom_looks {operand : Nat → Reader Node} {kinds : List Token.Kind}
    (heof : Token.Kind.eof ∉ kinds) {levels : Nat} (h : ∀ l ≤ levels, Looks (operand l))
    (left : Node) : Looks (chainFrom operand kinds levels left) := by
  induction levels generalizing left with
  | zero =>
    unfold chainFrom
    refine (looks_accept heof).bind fun found => ?_
    cases found with
    | none => exact looks_pure left
    | some operator => exact looks_throw _
  | succ levels ih =>
    unfold chainFrom
    refine (looks_accept heof).bind fun found => ?_
    cases found with
    | none => exact looks_pure left
    | some operator =>
      exact (h levels (Nat.le_succ _)).bind fun right =>
        ih (fun l hl => h l (Nat.le_succ_of_le hl)) _

theorem chain_looks {operand : Nat → Reader Node} {kinds : List Token.Kind}
    (heof : Token.Kind.eof ∉ kinds) {levels : Nat} (h : ∀ l ≤ levels, Looks (operand l)) :
    Looks (chain operand kinds levels) :=
  (h levels (Nat.le_refl _)).bind (chainFrom_looks heof h)

/-- The arguments behind the first one, however many they are. -/
def furtherArguments (levels : Nat) : Reader (List Node) :=
  remaining >>= moreArguments expression levels

/-- Any number that is not below that of the tokens ahead allows for all arguments. -/
theorem moreArguments_eq {levels n : Nat} {s : TokenStream} (h : s.ahead.length ≤ n) :
    moreArguments expression levels n s = furtherArguments levels s := by
  obtain ⟨pre, u, rfl, hb⟩ := exists_stop s
  have hpre : pre.length ≤ (u.prepend pre).ahead.length := by simp
  exact moreArguments_count (expression_confined levels) hb (Nat.le_trans hpre h) hpre rfl

/-- Behind each comma stands an argument, and further ones behind that. -/
theorem furtherArguments_eq (levels : Nat) :
    furtherArguments levels = (do
      match ← accept [.comma] with
      | none => return []
      | some _ =>
        let argument ← expression levels
        return argument :: (← furtherArguments levels)) := by
  funext s
  rw [← moreArguments_eq (Nat.le_succ s.ahead.length), moreArguments]
  refine bind_congr rfl fun found t hfound => ?_
  cases found with
  | none => rfl
  | some comma =>
    obtain ⟨-, rfl⟩ := accept_some hfound (by decide)
    refine bind_congr rfl fun argument u hargument => ?_
    obtain ⟨ts, rfl⟩ := exists_prepend_of_expression hargument
    have hlength : u.ahead.length ≤ ((u.prepend ts).prepend [comma]).ahead.length := by
      simp only [TokenStream.ahead_prepend, List.length_append]
      omega
    exact bind_congr (moreArguments_eq hlength) fun _ _ _ => rfl

section Tiers

variable {levels : Nat}

theorem furtherArguments_looks (h : Looks (expression levels)) :
    Looks (furtherArguments levels) := by
  intro s
  induction hlength : s.ahead.length using Nat.strongRecOn generalizing s with
  | ind n ih =>
    rw [furtherArguments_eq]
    refine (looks_accept (by decide) s).bind fun found t hfound => ?_
    cases found with
    | none => exact looks_pure [] t
    | some comma =>
      obtain ⟨-, rfl⟩ := accept_some hfound (by decide)
      refine (h t).bind fun argument u hargument => ?_
      obtain ⟨ts, rfl⟩ := h.exists_prepend hargument
      simp only [TokenStream.ahead_prepend, List.length_append, List.length_singleton] at hlength
      exact (ih u.ahead.length (by omega) u rfl).bind fun _ v _ => looks_pure _ v

theorem arguments_looks (h : Looks (expression levels)) : Looks (arguments expression levels) := by
  refine looks_current.bind fun t => ?_
  split
  · exact looks_pure []
  · refine h.bind fun argument => ?_
    exact (furtherArguments_looks h).bind fun more => looks_pure (argument :: more)

theorem call_looks (h : Looks (expression levels)) (callee : Node) :
    Looks (call expression callee levels) :=
  looks_advance.bind fun _ => (arguments_looks h).bind fun _ =>
    (looks_expect (by decide) _).bind fun _ => looks_pure _

theorem primary_looks (h : Looks (expression levels)) : Looks (primary expression levels) := by
  refine looks_current.bind fun t => ?_
  cases t.kind with
  | number | string | true | false => exact looks_advance.bind fun _ => looks_pure _
  | ident =>
    refine looks_advance.bind fun _ => looks_current.bind fun next => ?_
    split
    · exact call_looks h _
    · exact looks_pure _
  | lparen =>
    exact looks_advance.bind fun _ => h.bind fun _ =>
      (looks_expect (by decide) _).bind fun _ => looks_pure _
  | _ => exact looks_throw _

theorem unary_looks (h : Looks (expression levels)) : Looks (unary expression levels) := by
  refine (looks_accept (by decide)).bind fun found => ?_
  cases found with
  | none => exact primary_looks h
  | some operator => exact (primary_looks h).bind fun _ => looks_pure _

theorem additive_looks (h : ∀ l ≤ levels, Looks (expression l)) :
    Looks (additive expression levels) :=
  chain_looks (by decide) fun _ hl =>
    chain_looks (by decide) fun k hk => unary_looks (h k (Nat.le_trans hk hl))

theorem comparison_looks (h : ∀ l ≤ levels, Looks (expression l)) :
    Looks (comparison expression levels) := by
  refine (additive_looks h).bind fun left => (looks_accept (by decide)).bind fun found => ?_
  cases found with
  | none => exact looks_pure left
  | some operator =>
    refine (additive_looks h).bind fun right => looks_current.bind fun t => ?_
    split
    · exact looks_throw _
    · exact looks_pure _

theorem disjunction_looks (h : ∀ l ≤ levels, Looks (expression l)) :
    Looks (disjunction expression levels) :=
  chain_looks (by decide) fun _ hl => chain_looks (by decide) fun _ hk =>
    comparison_looks fun j hj => h j (Nat.le_trans hj (Nat.le_trans hk hl))

end Tiers

/-- Reading an expression looks no further than at the token behind it, or at the one that does not
fit. -/
theorem expression_looks (levels : Nat) : Looks (expression levels) := by
  induction levels using Nat.strongRecOn with
  | ind levels ih =>
    cases levels with
    | zero => exact looks_current.bind fun _ => looks_throw _
    | succ levels =>
      rw [expression_succ]
      exact disjunction_looks fun l hl => ih l (Nat.lt_succ_of_le hl)

/-! ## Statements -/

theorem terminator_looks (e : SyntaxError) : Looks (terminator e) := by
  refine (looks_accept (by decide)).bind fun found => ?_
  cases found with
  | some t => exact looks_pure _
  | none =>
    refine looks_current.bind fun t => ?_
    split
    · exact looks_pure _
    · exact looks_throw _

theorem terminated_looks (n : Node) (found : Option Token) : Looks (terminated n found) := by
  cases found with
  | none => exact looks_pure n
  | some t =>
    simp only [terminated]
    cases t.span.isEmpty with
    | error e => exact looks_throw _
    | ok empty => cases empty <;> exact looks_pure _

theorem declaration_looks (levels : Nat) : Looks (declaration levels) :=
  looks_advance.bind fun _ => (looks_expect (by decide) _).bind fun _ =>
    (looks_expect (by decide) _).bind fun _ => (expression_looks levels).bind fun _ => looks_pure _

theorem statement_looks (levels : Nat) : Looks (statement levels) := by
  refine looks_current.bind fun t => ?_
  split
  · exact (declaration_looks levels).bind fun _ => (terminator_looks _).bind (terminated_looks _)
  · exact (expression_looks levels).bind fun _ => (terminator_looks _).bind (terminated_looks _)

end Grammar

end RuleLang
