import RuleLang.Proofs.Grammar.Recovery

/-!
What a statement leaves of the tokens, which is always the end of them (`statement_suffix`). So each
statement of a program, and each fault, is that of reading somewhere in the stream
(`statements_readIn`), and only a semicolon of the stream can lack a length
(`unmeasured_of_mem_faults`).
-/
namespace RuleLang.Grammar

theorem advance_suffix (s : TokenStream) : s.advance.ahead <:+ s.ahead := by
  obtain ⟨ahead, last, eof⟩ := s
  cases ahead with
  | nil => exact List.suffix_rfl
  | cons t rest =>
    by_cases ht : t.kind = .eof
    · simp [TokenStream.advance, ht]
    · simp [TokenStream.advance, ht]

theorem synchronize_suffix (s : TokenStream) : s.synchronize.ahead <:+ s.ahead := by
  change TokenStream.behindSemicolon s.ahead <:+ s.ahead
  induction s.ahead with
  | nil => exact List.suffix_rfl
  | cons t rest ih =>
    unfold TokenStream.behindSemicolon
    split
    · exact List.suffix_rfl
    · split
      · exact List.suffix_cons t rest
      · exact ih.trans (List.suffix_cons t rest)

/-- Where reading ended. -/
def leftover {α : Type} : EStateM.Result Fault TokenStream α → TokenStream
  | .ok _ s | .error _ s => s

/-- A statement leaves what stands behind the tokens that it takes. -/
theorem statement_suffix (levels : Nat) (s : TokenStream) :
    (leftover (statement levels s)).ahead <:+ s.ahead := by
  obtain ⟨pre, t, rfl, hb⟩ := exists_stop s
  have hadvance : t.advance.ahead <:+ (t.prepend pre).ahead :=
    (advance_suffix t).trans (List.suffix_append pre t.ahead)
  rcases statement_outcome levels hb with ⟨node, hread⟩ | ⟨fault, -, rest, hrest, hread⟩ |
    ⟨e, -, -, hread⟩
  · rw [hread t rfl]
    exact hadvance
  · rw [hread t rfl]
    obtain ⟨front, rfl⟩ := hrest
    exact ⟨front, by simp [leftover]⟩
  · rw [hread t rfl]
    exact hadvance

/-- A statement that is read at some place of the stream comes to a result, wherever that leaves
the reader. -/
def ReadIn (levels : Nat) (s : TokenStream)
    (result : TokenStream → EStateM.Result Fault TokenStream Node) : Prop :=
  ∃ u rest, u.ahead <:+ s.ahead ∧ statement levels u = result rest

section Statements

variable {levels count : Nat} {s s' : TokenStream}

theorem ReadIn.mono {result : TokenStream → EStateM.Result Fault TokenStream Node}
    (h : ReadIn levels s' result) (hs : s'.ahead <:+ s.ahead) : ReadIn levels s result := by
  obtain ⟨u, rest, hu, hread⟩ := h
  exact ⟨u, rest, hu.trans hs, hread⟩

/-- All statements of a program, and all its faults, come of reading somewhere in the stream. -/
theorem statements_readIn :
    (∀ n ∈ (statements levels count s).nodes, ReadIn levels s (.ok n)) ∧
      ∀ f ∈ (statements levels count s).faults, ReadIn levels s (.error f) := by
  induction count generalizing s with
  | zero => exact ⟨List.forall_mem_nil _, List.forall_mem_nil _⟩
  | succ count ih =>
    unfold statements
    split
    · exact ⟨List.forall_mem_nil _, List.forall_mem_nil _⟩
    · have hsuffix := statement_suffix levels s
      cases hread : statement levels s with
      | ok node rest =>
        rw [hread] at hsuffix
        obtain ⟨hnodes, hfaults⟩ := ih (s := rest)
        exact ⟨List.forall_mem_cons.2 ⟨⟨s, rest, List.suffix_rfl, hread⟩,
          fun n hn => (hnodes n hn).mono hsuffix⟩, fun f hf => (hfaults f hf).mono hsuffix⟩
      | error fault rest =>
        rw [hread] at hsuffix
        have hfault : ReadIn levels s (.error fault) := ⟨s, rest, List.suffix_rfl, hread⟩
        dsimp only
        split
        · have hbehind := (synchronize_suffix rest).trans hsuffix
          obtain ⟨hnodes, hfaults⟩ := ih (s := rest.synchronize)
          exact ⟨fun n hn => (hnodes n hn).mono hbehind,
            List.forall_mem_cons.2 ⟨hfault, fun f hf => (hfaults f hf).mono hbehind⟩⟩
        · exact ⟨List.forall_mem_nil _, List.forall_mem_singleton.2 hfault⟩

/-- What cannot be measured is a semicolon whose span has no length. -/
theorem unmeasured_of_statement {e : Span.LengthError} {t : Token}
    (h : statement levels s = .error (.unmeasured e t) s') :
    t ∈ s.ahead ∧ t.kind = .semicolon ∧ t.span.isEmpty = .error e := by
  obtain ⟨pre, u, rfl, hb⟩ := exists_stop s
  cases statement_outcome levels hb with
  | complete node hr => cases (hr u rfl).symm.trans h
  | faulty fault hfound rest hrest hr =>
    cases (hr u rfl).symm.trans h
    exact hfound.elim
  | unmeasured e hsemicolon hlength hr =>
    cases (hr u rfl).symm.trans h
    refine ⟨?_, hsemicolon, hlength⟩
    rw [TokenStream.ahead_prepend]
    obtain hmem | hmem := List.mem_append.1 u.current_mem
    · exact List.mem_append_right _ hmem
    · rw [List.mem_singleton.1 hmem, u.last_eof] at hsemicolon
      cases hsemicolon

theorem unmeasured_of_mem_faults {e : Span.LengthError} {t : Token}
    (h : .unmeasured e t ∈ (statements levels count s).faults) :
    t ∈ s.ahead ∧ t.kind = .semicolon ∧ t.span.isEmpty = .error e := by
  obtain ⟨u, rest, hu, hread⟩ := statements_readIn.2 _ h
  obtain ⟨ht, hkind, hlength⟩ := unmeasured_of_statement hread
  exact ⟨hu.subset ht, hkind, hlength⟩

end Statements

end RuleLang.Grammar
