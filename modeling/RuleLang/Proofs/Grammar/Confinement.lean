import RuleLang.Proofs.Grammar.Levels

/-!
Expressions stay within their statement. A reader of expressions takes no token from a semicolon or
an end mark on, and what it gives depends only on the tokens up to that one: it gives the same in
front of every stream that begins with it (`expression_confined`).
-/
namespace RuleLang.Grammar

open Reader

/-- The tokens `pre` stand in front of `stop`, the first semicolon or end mark behind them. All of
them are among the tokens `scope`. -/
structure Bounded (scope pre : List Token) (stop : Token) : Prop where
  mem : ∀ t ∈ pre, t ∈ scope
  inner : ∀ t ∈ pre, t.kind ≠ .semicolon ∧ t.kind ≠ .eof
  stop_mem : stop ∈ scope
  stop_kind : stop.kind = .semicolon ∨ stop.kind = .eof

theorem Bounded.of_suffix {scope pre rest : List Token} {stop : Token} (h : Bounded scope pre stop)
    (hs : rest <:+ pre) : Bounded scope rest stop :=
  { h with
    mem := fun t ht => h.mem t (hs.subset ht)
    inner := fun t ht => h.inner t (hs.subset ht) }

/-- The fault is found at one of the tokens, and not for want of the token's length. -/
def Fault.IsAmong (scope : List Token) : Fault → Prop
  | .unexpected _ t | .tooDeep t => t ∈ scope
  | .unmeasured .. => False

/-- In front of every stream that begins with `stop`, the reader does the same with the tokens
`pre`: it leaves some of them and gives a value, or a fault that is found at a token of `scope`. -/
def ConfinedAt {α : Type} (scope pre : List Token) (stop : Token) (r : Reader α) : Prop :=
  (∃ a rest, rest <:+ pre ∧
    ∀ s : TokenStream, s.current = stop → r (s.prepend pre) = .ok a (s.prepend rest)) ∨
  (∃ f rest, rest <:+ pre ∧ f.IsAmong scope ∧
    ∀ s : TokenStream, s.current = stop → r (s.prepend pre) = .error f (s.prepend rest))

/-- The reader stays in front of the first semicolon or end mark, wherever that is. -/
def Confined {α : Type} (r : Reader α) : Prop :=
  ∀ {scope pre : List Token} {stop : Token}, Bounded scope pre stop → ConfinedAt scope pre stop r

section Steps

variable {α β : Type} {scope pre : List Token} {stop : Token}

theorem confinedAt_pure (a : α) : ConfinedAt scope pre stop (pure a) :=
  .inl ⟨a, pre, List.suffix_rfl, fun _ _ => rfl⟩

theorem confinedAt_throw {f : Fault} (hf : f.IsAmong scope) :
    ConfinedAt scope pre stop (throw f : Reader α) :=
  .inr ⟨f, pre, List.suffix_rfl, hf, fun _ _ => rfl⟩

theorem ConfinedAt.congr {r r' : Reader α} (hr : ConfinedAt scope pre stop r')
    (h : ∀ s : TokenStream, s.current = stop → r (s.prepend pre) = r' (s.prepend pre)) :
    ConfinedAt scope pre stop r := by
  obtain ⟨a, rest, hrest, hr⟩ | ⟨e, rest, hrest, hfound, hr⟩ := hr
  · exact .inl ⟨a, rest, hrest, fun s hs => (h s hs).trans (hr s hs)⟩
  · exact .inr ⟨e, rest, hrest, hfound, fun s hs => (h s hs).trans (hr s hs)⟩

/-- A reader that goes on where a first one ended. -/
theorem ConfinedAt.bind {r : Reader α} {f : α → Reader β} (hr : ConfinedAt scope pre stop r)
    (hf : ∀ a rest, rest <:+ pre → ConfinedAt scope rest stop (f a)) :
    ConfinedAt scope pre stop (r >>= f) := by
  obtain ⟨a, rest, hrest, hr⟩ | ⟨e, rest, hrest, hfound, hr⟩ := hr
  · obtain ⟨b, more, hmore, hb⟩ | ⟨e, more, hmore, hfound, hb⟩ := hf a rest hrest
    · refine .inl ⟨b, more, hmore.trans hrest, fun s hs => ?_⟩
      rw [bind_of_ok (hr s hs), hb s hs]
    · refine .inr ⟨e, more, hmore.trans hrest, hfound, fun s hs => ?_⟩
      rw [bind_of_ok (hr s hs), hb s hs]
  · exact .inr ⟨e, rest, hrest, hfound, fun s hs => bind_of_error (hr s hs)⟩

/-- A reader that goes on behind a token it has found. -/
theorem ConfinedAt.of_tail {r r' : Reader α} {t : Token} (hr : ConfinedAt scope pre stop r')
    (h : ∀ s : TokenStream, r (s.prepend (t :: pre)) = r' (s.prepend pre)) :
    ConfinedAt scope (t :: pre) stop r := by
  have hpre : pre <:+ t :: pre := List.suffix_cons t pre
  obtain ⟨a, rest, hrest, hr⟩ | ⟨e, rest, hrest, hfound, hr⟩ := hr
  · exact .inl ⟨a, rest, hrest.trans hpre, fun s hs => (h s).trans (hr s hs)⟩
  · exact .inr ⟨e, rest, hrest.trans hpre, hfound, fun s hs => (h s).trans (hr s hs)⟩

/-- The next token is the same in front of all streams that begin alike. -/
theorem current_prepend {s : TokenStream} (hs : s.current = stop) :
    (s.prepend pre).current = pre.headD stop := by
  cases pre with
  | nil => exact hs
  | cons t pre => rfl

theorem Bounded.head_mem (h : Bounded scope pre stop) : pre.headD stop ∈ scope := by
  cases pre with
  | nil => exact h.stop_mem
  | cons t pre => exact h.mem t List.mem_cons_self

theorem confinedAt_current {f : Token → Reader α}
    (hf : ConfinedAt scope pre stop (f (pre.headD stop))) :
    ConfinedAt scope pre stop (current >>= f) := by
  apply hf.congr
  intro s hs
  rw [← current_prepend hs]
  rfl

/-- A token that is neither semicolon nor end mark is passed within the bounds. -/
theorem confinedAt_advance {f : Token → Reader α} {t : Token} (h : Bounded scope (t :: pre) stop)
    (hf : ConfinedAt scope pre stop (f t)) :
    ConfinedAt scope (t :: pre) stop (advance >>= f) :=
  hf.of_tail fun s =>
    bind_of_ok (advance_apply_prepend_cons (h.inner t List.mem_cons_self).2 pre s)

theorem confinedAt_accept {kinds : List Token.Kind} {f : Option Token → Reader α}
    (h : Bounded scope pre stop) (hkinds : Token.Kind.semicolon ∉ kinds ∧ Token.Kind.eof ∉ kinds)
    (hnone : ConfinedAt scope pre stop (f none))
    (hsome : ∀ t ∈ scope, ∀ rest, rest <:+ pre → rest.length < pre.length →
      ConfinedAt scope rest stop (f (some t))) :
    ConfinedAt scope pre stop (accept kinds >>= f) := by
  by_cases hk : (pre.headD stop).kind ∈ kinds
  · cases pre with
    | nil => rcases h.stop_kind with e | e <;> simp_all
    | cons t pre =>
      refine (hsome t (h.mem t List.mem_cons_self) pre (List.suffix_cons t pre) (by simp)).of_tail
        fun s => ?_
      exact bind_of_ok (accept_prepend_cons hk (h.inner t List.mem_cons_self).2 pre s)
  · apply hnone.congr
    intro s hs
    exact bind_of_ok (accept_of_not_mem (by rwa [current_prepend hs]))

theorem expect_confined {kind : Token.Kind} (e : SyntaxError) (hs : kind ≠ .semicolon)
    (heof : kind ≠ .eof) : Confined (expect kind e) := by
  intro scope pre stop h
  by_cases hk : (pre.headD stop).kind = kind
  · cases pre with
    | nil => rcases h.stop_kind with e | e <;> simp_all
    | cons t pre =>
      exact .inl ⟨t, pre, List.suffix_cons t pre, fun s _ => expect_prepend_cons hk heof e pre s⟩
  · refine .inr ⟨.unexpected e (pre.headD stop), pre, List.suffix_rfl, h.head_mem, fun s hs => ?_⟩
    unfold expect
    rw [current_prepend hs, if_neg hk]

end Steps

section Tiers

variable {nested : Nat → Reader Node} {levels : Nat}

theorem chainFrom_confined {operand : Nat → Reader Node} {kinds : List Token.Kind}
    (hkinds : Token.Kind.semicolon ∉ kinds ∧ Token.Kind.eof ∉ kinds)
    (h : ∀ l ≤ levels, Confined (operand l)) (left : Node) :
    Confined (chainFrom operand kinds levels left) := by
  induction levels generalizing left with
  | zero =>
    intro scope pre stop hb
    unfold chainFrom
    exact confinedAt_accept hb hkinds (confinedAt_pure left)
      fun operator hmem rest _ _ => confinedAt_throw hmem
  | succ levels ih =>
    intro scope pre stop hb
    unfold chainFrom
    apply confinedAt_accept hb hkinds (confinedAt_pure left)
    intro operator _ rest hrest _
    apply (h levels (by omega) (hb.of_suffix hrest)).bind
    intro right more hmore
    exact ih (fun l hl => h l (by omega)) _ (hb.of_suffix (hmore.trans hrest))

theorem chain_confined {operand : Nat → Reader Node} {kinds : List Token.Kind}
    (hkinds : Token.Kind.semicolon ∉ kinds ∧ Token.Kind.eof ∉ kinds)
    (h : ∀ l ≤ levels, Confined (operand l)) : Confined (chain operand kinds levels) := by
  intro scope pre stop hb
  exact (h levels (Nat.le_refl _) hb).bind fun left rest hrest =>
    chainFrom_confined hkinds h left (hb.of_suffix hrest)

theorem moreArguments_confined (h : Confined (nested levels)) (count : Nat) :
    Confined (moreArguments nested levels count) := by
  induction count with
  | zero =>
    intro scope pre stop hb
    exact confinedAt_pure []
  | succ count ih =>
    intro scope pre stop hb
    unfold moreArguments
    apply confinedAt_accept hb (by decide) (confinedAt_pure [])
    intro comma _ rest hrest _
    apply (h (hb.of_suffix hrest)).bind
    intro argument more hmore
    exact (ih (hb.of_suffix (hmore.trans hrest))).bind fun _ _ _ => confinedAt_pure _

theorem moreArguments_zero_eq {s : TokenStream} (hs : s.current.kind ≠ .comma) (count : Nat) :
    moreArguments nested levels count s = .ok [] s := by
  cases count with
  | zero => rfl
  | succ count =>
    unfold moreArguments
    exact bind_of_ok (accept_of_not_mem (by simpa using hs))

/-- How many arguments are allowed does not show, as long as these are not fewer than the tokens
in front of `stop`. -/
theorem moreArguments_count (h : Confined (nested levels)) {scope pre : List Token} {stop : Token}
    (hb : Bounded scope pre stop) {n m : Nat} (hn : pre.length ≤ n) (hm : pre.length ≤ m)
    {s : TokenStream} (hs : s.current = stop) :
    moreArguments nested levels n (s.prepend pre) =
      moreArguments nested levels m (s.prepend pre) := by
  induction n generalizing m pre with
  | zero =>
    obtain rfl : pre = [] := List.eq_nil_of_length_eq_zero (by omega)
    have hcomma : s.current.kind ≠ .comma := by
      rcases hb.stop_kind with e | e <;> simp [hs, e]
    exact (moreArguments_zero_eq hcomma 0).trans (moreArguments_zero_eq hcomma m).symm
  | succ n ih =>
    by_cases hcomma : (s.prepend pre).current.kind = .comma
    · cases pre with
      | nil =>
        rw [TokenStream.prepend_nil, hs] at hcomma
        rcases hb.stop_kind with e | e <;> simp [e] at hcomma
      | cons comma pre =>
        replace hcomma : comma.kind = .comma := hcomma
        obtain ⟨m, rfl⟩ : ∃ k, m = k + 1 :=
          ⟨m - 1, by simp only [List.length_cons] at hm; omega⟩
        have haccept := accept_prepend_cons (t := comma) (List.mem_singleton.2 hcomma)
          (by simp [hcomma]) pre s
        unfold moreArguments
        rw [bind_of_ok haccept, bind_of_ok haccept]
        have hpre : pre <:+ comma :: pre := List.suffix_cons comma pre
        obtain ⟨a, rest, hrest, hr⟩ | ⟨e, rest, hrest, -, hr⟩ := h (hb.of_suffix hpre)
        · have hlength := hrest.length_le
          have hmore := ih (hb.of_suffix (hrest.trans hpre))
            (by simp only [List.length_cons] at hn; omega)
            (by simp only [List.length_cons] at hm; omega : rest.length ≤ m)
          dsimp only
          rw [bind_of_ok (hr s hs), bind_of_ok (hr s hs)]
          cases hnext : moreArguments nested levels m (s.prepend rest) with
          | ok as t => rw [bind_of_ok hnext, bind_of_ok (hmore.trans hnext)]
          | error e t => rw [bind_of_error hnext, bind_of_error (hmore.trans hnext)]
        · exact (bind_of_error (hr s hs)).trans (bind_of_error (hr s hs)).symm
    · exact (moreArguments_zero_eq hcomma _).trans (moreArguments_zero_eq hcomma m).symm

theorem arguments_confined (h : Confined (nested levels)) :
    Confined (arguments nested levels) := by
  intro scope pre stop hb
  unfold arguments
  apply confinedAt_current
  split
  · exact confinedAt_pure []
  · apply (h hb).bind
    intro argument rest hrest
    have hb := hb.of_suffix hrest
    have hmore := (moreArguments_confined h rest.length hb).bind (f := fun more =>
      pure (argument :: more)) fun _ _ _ => confinedAt_pure _
    apply hmore.congr
    intro s hs
    have hcount := moreArguments_count h hb (n := (rest ++ s.ahead).length) (by simp)
      (Nat.le_refl _) hs
    change (moreArguments nested levels (rest ++ s.ahead).length >>= _) _ = _
    cases hnext : moreArguments nested levels rest.length (s.prepend rest) with
    | ok as t => rw [bind_of_ok hnext, bind_of_ok (hcount.trans hnext)]
    | error e t => rw [bind_of_error hnext, bind_of_error (hcount.trans hnext)]

theorem call_confined (h : Confined (nested levels)) (callee : Node) {scope pre : List Token}
    {stop t : Token} (hb : Bounded scope (t :: pre) stop) :
    ConfinedAt scope (t :: pre) stop (call nested callee levels) := by
  unfold call
  apply confinedAt_advance hb
  have hb := hb.of_suffix (List.suffix_cons t pre)
  apply (arguments_confined h hb).bind
  intro _ rest hrest
  exact (expect_confined _ (by decide) (by decide) (hb.of_suffix hrest)).bind
    fun _ _ _ => confinedAt_pure _

theorem primary_confined (h : Confined (nested levels)) : Confined (primary nested levels) := by
  intro scope pre stop hb
  unfold primary
  apply confinedAt_current
  cases pre with
  | nil =>
    rcases hb.stop_kind with e | e
    all_goals
      rw [List.headD_nil, e]
      exact confinedAt_throw hb.stop_mem
  | cons t pre =>
    have htail := hb.of_suffix (List.suffix_cons t pre)
    rw [List.headD_cons]
    split
    · exact confinedAt_advance hb (confinedAt_pure _)
    · exact confinedAt_advance hb (confinedAt_pure _)
    · exact confinedAt_advance hb (confinedAt_pure _)
    · exact confinedAt_advance hb (confinedAt_pure _)
    · refine confinedAt_advance hb (confinedAt_current ?_)
      split
      · rename_i hparen
        cases pre with
        | nil => rcases hb.stop_kind with e | e <;> simp_all
        | cons opening pre => exact call_confined h _ htail
      · exact confinedAt_pure _
    · refine confinedAt_advance hb ((h htail).bind fun _ rest hrest => ?_)
      exact (expect_confined _ (by decide) (by decide) (htail.of_suffix hrest)).bind
        fun _ _ _ => confinedAt_pure _
    · exact confinedAt_throw (hb.mem t List.mem_cons_self)

theorem unary_confined (h : Confined (nested levels)) : Confined (unary nested levels) := by
  intro scope pre stop hb
  unfold unary
  apply confinedAt_accept hb (by decide) (primary_confined h hb)
  intro operator _ rest hrest _
  exact (primary_confined h (hb.of_suffix hrest)).bind fun _ _ _ => confinedAt_pure _

theorem additive_confined (h : ∀ l ≤ levels, Confined (nested l)) :
    Confined (additive nested levels) :=
  chain_confined (by decide) fun l hl =>
    chain_confined (by decide) fun k hk => unary_confined (h k (by omega))

theorem comparison_confined (h : ∀ l ≤ levels, Confined (nested l)) :
    Confined (comparison nested levels) := by
  intro scope pre stop hb
  unfold comparison
  apply (additive_confined h hb).bind
  intro left rest hrest
  have hb := hb.of_suffix hrest
  apply confinedAt_accept hb (by decide) (confinedAt_pure left)
  intro operator _ more hmore _
  have hb := hb.of_suffix hmore
  refine (additive_confined h hb).bind fun right last hlast => confinedAt_current ?_
  split
  · exact confinedAt_throw (hb.of_suffix hlast).head_mem
  · exact confinedAt_pure _

theorem disjunction_confined (h : ∀ l ≤ levels, Confined (nested l)) :
    Confined (disjunction nested levels) :=
  chain_confined (by decide) fun l hl =>
    chain_confined (by decide) fun k hk => comparison_confined fun j hj => h j (by omega)

end Tiers

/-- An expression is read from the tokens in front of the first semicolon or end mark, and none
other. -/
theorem expression_confined (levels : Nat) : Confined (expression levels) := by
  induction levels using Nat.strongRecOn with
  | ind levels ih =>
    intro scope pre stop hb
    cases levels with
    | zero => exact confinedAt_current (confinedAt_throw hb.head_mem)
    | succ levels =>
      rw [expression_succ]
      exact disjunction_confined (fun l hl => ih l (by omega)) hb

end RuleLang.Grammar
