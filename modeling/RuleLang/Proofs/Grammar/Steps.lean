import RuleLang.Grammar.Expression

/-!
Steps of readers. A sequence of readers gives a value exactly when each of them does
(`bind_eq_ok`), and a reader of single tokens takes them from the front of the stream: a stream
`s.prepend ts` holds the tokens `ts` in front of those of `s`.
-/
namespace RuleLang

namespace TokenStream

/-- The stream with more tokens in front. -/
def prepend (ts : List Token) (s : TokenStream) : TokenStream := { s with ahead := ts ++ s.ahead }

@[simp] theorem prepend_nil (s : TokenStream) : s.prepend [] = s := rfl

@[simp] theorem prepend_append (ts us : List Token) (s : TokenStream) :
    s.prepend (ts ++ us) = (s.prepend us).prepend ts := by
  simp [prepend]

theorem prepend_cons (t : Token) (ts : List Token) (s : TokenStream) :
    s.prepend (t :: ts) = (s.prepend ts).prepend [t] := rfl

@[simp] theorem ahead_prepend (ts : List Token) (s : TokenStream) :
    (s.prepend ts).ahead = ts ++ s.ahead := rfl

@[simp] theorem last_prepend (ts : List Token) (s : TokenStream) :
    (s.prepend ts).last = s.last := rfl

@[simp] theorem current_prepend_cons (t : Token) (ts : List Token) (s : TokenStream) :
    (s.prepend (t :: ts)).current = t := rfl

theorem advance_prepend_cons {t : Token} (h : t.kind ≠ .eof) (ts : List Token) (s : TokenStream) :
    (s.prepend (t :: ts)).advance = s.prepend ts := by
  simp [prepend, advance, h]

/-- A token that is not an end mark stands in front of what follows it. -/
theorem prepend_advance {s : TokenStream} (h : s.current.kind ≠ .eof) :
    s.advance.prepend [s.current] = s := by
  obtain ⟨ahead, last, eof⟩ := s
  cases ahead with
  | nil => exact absurd eof h
  | cons t rest =>
    have : t.kind ≠ .eof := h
    simp [advance, prepend, current, this]

/-- No token but the last one marks the end of the source. -/
def EndsOnce (s : TokenStream) : Prop := ∀ t ∈ s.ahead, t.kind ≠ .eof

instance (s : TokenStream) : Decidable s.EndsOnce :=
  inferInstanceAs (Decidable (∀ t ∈ s.ahead, t.kind ≠ .eof))

theorem EndsOnce.of_prepend {s : TokenStream} {ts : List Token} (h : (s.prepend ts).EndsOnce) :
    s.EndsOnce :=
  fun t ht => h t (List.mem_append_right ts ht)

/-- The end mark is read only when nothing is ahead. -/
theorem EndsOnce.ahead_eq_nil {s : TokenStream} (h : s.EndsOnce) (heof : s.current.kind = .eof) :
    s.ahead = [] := by
  obtain ⟨ahead, last, eof⟩ := s
  cases ahead with
  | nil => rfl
  | cons t rest => exact absurd heof (h t List.mem_cons_self)

/-- The end of the stream. -/
def atEnd (s : TokenStream) : TokenStream := { s with ahead := [] }

@[simp] theorem current_atEnd (s : TokenStream) : s.atEnd.current = s.last := rfl

@[simp] theorem prepend_ahead (s : TokenStream) : s.atEnd.prepend s.ahead = s := by
  simp [prepend, atEnd]

theorem toList_prepend (ts : List Token) (s : TokenStream) :
    (s.prepend ts).toList = ts ++ s.toList := by
  simp [toList]

theorem current_mem (s : TokenStream) : s.current ∈ s.toList := by
  obtain ⟨ahead, last, eof⟩ := s
  cases ahead with
  | nil => exact List.mem_singleton.2 rfl
  | cons t rest => exact List.mem_cons_self

theorem toList_advance_subset (s : TokenStream) : s.advance.toList ⊆ s.toList := by
  unfold advance
  split
  · exact List.Subset.refl _
  · rename_i t rest hahead
    split
    · exact List.Subset.refl _
    · rw [toList, toList, hahead]
      exact List.subset_cons_self t _

end TokenStream

namespace Grammar

open Reader

/-! ## Sequences -/

theorem bind_of_ok {α β : Type} {r : Reader α} {f : α → Reader β} {s s' : TokenStream} {a : α}
    (h : r s = .ok a s') : (r >>= f) s = f a s' := by
  change EStateM.bind r f s = f a s'
  simp only [EStateM.bind, h]

theorem bind_of_error {α β : Type} {r : Reader α} {f : α → Reader β} {s s' : TokenStream}
    {e : Fault} (h : r s = .error e s') : (r >>= f) s = .error e s' := by
  change EStateM.bind r f s = .error e s'
  simp only [EStateM.bind, h]

/-- Two sequences do the same if their first parts do, and their second parts behind them. -/
theorem bind_congr {α β : Type} {r r' : Reader α} {f f' : α → Reader β} {s : TokenStream}
    (h : r s = r' s) (hf : ∀ a t, r' s = .ok a t → f a t = f' a t) :
    (r >>= f) s = (r' >>= f') s := by
  cases hr : r' s with
  | ok a t => rw [bind_of_ok (h.trans hr), bind_of_ok hr, hf a t hr]
  | error e t => rw [bind_of_error (h.trans hr), bind_of_error hr]

/-- A sequence gives a value exactly when both of its parts do. -/
theorem bind_eq_ok {α β : Type} {r : Reader α} {f : α → Reader β} {s s' : TokenStream} {b : β} :
    (r >>= f) s = .ok b s' ↔ ∃ a t, r s = .ok a t ∧ f a t = .ok b s' := by
  cases h : r s with
  | ok a t => simp [bind_of_ok h, and_assoc]
  | error e t => simp [bind_of_error h]

/-- A sequence fails where its first part does, or its second part behind it. -/
theorem bind_eq_error {α β : Type} {r : Reader α} {f : α → Reader β} {s s' : TokenStream}
    {e : Fault} : (r >>= f) s = .error e s' ↔
      r s = .error e s' ∨ ∃ a t, r s = .ok a t ∧ f a t = .error e s' := by
  cases h : r s with
  | ok a t => simp [bind_of_ok h, and_assoc]
  | error e t => simp [bind_of_error h]

@[simp] theorem pure_eq_ok {α : Type} {a b : α} {s s' : TokenStream} :
    (pure a : Reader α) s = .ok b s' ↔ a = b ∧ s = s' := by
  change EStateM.Result.ok a s = .ok b s' ↔ a = b ∧ s = s'
  simp

@[simp] theorem pure_apply {α : Type} (a : α) (s : TokenStream) :
    (pure a : Reader α) s = .ok a s := rfl

@[simp] theorem throw_apply {α : Type} (e : Fault) (s : TokenStream) :
    (throw e : Reader α) s = .error e s := rfl

/-! ## Single tokens -/

theorem current_apply (s : TokenStream) : current s = .ok s.current s := rfl

theorem advance_ok {s s' : TokenStream} {t : Token} (h : advance s = .ok t s')
    (hs : s.current.kind ≠ .eof) : t = s.current ∧ s = s'.prepend [t] := by
  cases h
  exact ⟨rfl, (TokenStream.prepend_advance hs).symm⟩

theorem accept_some {kinds : List Token.Kind} {s s' : TokenStream} {t : Token}
    (h : accept kinds s = .ok (some t) s') (heof : Token.Kind.eof ∉ kinds) :
    t.kind ∈ kinds ∧ s = s'.prepend [t] := by
  unfold accept at h
  split at h
  · rename_i hk
    cases h
    exact ⟨hk, (TokenStream.prepend_advance fun e => heof (e ▸ hk)).symm⟩
  · cases h

theorem accept_none {kinds : List Token.Kind} {s s' : TokenStream}
    (h : accept kinds s = .ok none s') : s.current.kind ∉ kinds ∧ s' = s := by
  unfold accept at h
  split at h
  · cases h
  · rename_i hk
    cases h
    exact ⟨hk, rfl⟩

theorem expect_ok {kind : Token.Kind} {e : SyntaxError} {s s' : TokenStream} {t : Token}
    (h : expect kind e s = .ok t s') (heof : kind ≠ .eof) :
    t.kind = kind ∧ s = s'.prepend [t] := by
  unfold expect at h
  split at h
  · rename_i hk
    cases h
    exact ⟨hk, (TokenStream.prepend_advance fun e => heof (hk ▸ e)).symm⟩
  · cases h

theorem accept_ne_error {kinds : List Token.Kind} {s s' : TokenStream} {e : Fault} :
    accept kinds s ≠ .error e s' := by
  unfold accept
  split <;> nofun

theorem expect_eq_error {kind : Token.Kind} {e : SyntaxError} {s s' : TokenStream} {f : Fault}
    (h : expect kind e s = .error f s') : s' = s ∧ f = .unexpected e s.current := by
  unfold expect at h
  split at h
  · cases h
  · cases h
    exact ⟨rfl, rfl⟩

@[simp] theorem accept_prepend_cons {kinds : List Token.Kind} {t : Token} (h : t.kind ∈ kinds)
    (heof : t.kind ≠ .eof) (ts : List Token) (s : TokenStream) :
    accept kinds (s.prepend (t :: ts)) = .ok (some t) (s.prepend ts) := by
  simp [accept, h, TokenStream.advance_prepend_cons heof]

theorem accept_of_not_mem {kinds : List Token.Kind} {s : TokenStream}
    (h : s.current.kind ∉ kinds) : accept kinds s = .ok none s := by
  simp [accept, h]

theorem expect_prepend_cons {kind : Token.Kind} {t : Token} (h : t.kind = kind)
    (heof : kind ≠ .eof) (e : SyntaxError) (ts : List Token) (s : TokenStream) :
    expect kind e (s.prepend (t :: ts)) = .ok t (s.prepend ts) := by
  subst h
  simp [expect, TokenStream.advance_prepend_cons heof]

theorem advance_apply_prepend_cons {t : Token} (h : t.kind ≠ .eof) (ts : List Token)
    (s : TokenStream) : advance (s.prepend (t :: ts)) = .ok t (s.prepend ts) := by
  simp [advance, TokenStream.advance_prepend_cons h]

end Grammar

end RuleLang
