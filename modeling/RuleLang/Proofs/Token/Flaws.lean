import RuleLang.Proofs.Token.Tiling

/-!
What is reported about the words of a text. The flaws of a word concern parts of it behind its first
character, but for one flaw of an invalid word, which concerns all of it. So there is exactly one
diagnostic on the place of an invalid token (`exists_diagnostic_of_invalid`).
-/
namespace RuleLang

/-- The flaws of a word are inner ones; if the word is invalid, one more concerns all of it. -/
inductive Word.FlawsFit (w : Word) : Prop where
  | partly (kind : w.kind ≠ .invalid) (inside : ∀ f ∈ w.flaws, 0 < f.skip)
  | wholly (kind : w.kind = .invalid) (inner : List Flaw) (inside : ∀ f ∈ inner, 0 < f.skip)
      (fault : LexicalFault) (flaws : w.flaws = inner ++ [⟨fault, 0, w.lexeme.length⟩])

namespace Word

/-! ## Words -/

theorem flawsFit_invalid (lexeme : List Char) (fault : LexicalFault) :
    (invalid lexeme fault).FlawsFit :=
  .wholly rfl [] (List.forall_mem_nil _) fault rfl

theorem flawsFit_of_flawless {w : Word} (kind : w.kind ≠ .invalid) (flaws : w.flaws = []) :
    w.FlawsFit :=
  .partly kind (by simp [flaws])

/-- No flaw of a string concerns its opening quote. -/
theorem skip_le_of_mem_flaws {ps : List StringPiece} {skip : Nat} {f : Flaw}
    (h : f ∈ StringPiece.flaws skip ps) : skip ≤ f.skip := by
  fun_induction StringPiece.flaws skip ps with
  | case1 => cases h
  | case2 skip c ps ih => exact Nat.le_of_succ_le (ih h)
  | case3 skip c ps hknown ih => exact Nat.le_trans (Nat.le_add_right skip 2) (ih h)
  | case4 skip c ps hunknown ih =>
    obtain rfl | h := List.mem_cons.1 h
    · exact Nat.le_refl _
    · exact Nat.le_trans (Nat.le_add_right skip 2) (ih h)

theorem flawsFit_readString (body : List Char) : (readString body).1.FlawsFit := by
  unfold readString
  split
  · exact .partly (by simp) fun _ hf => skip_le_of_mem_flaws hf
  · rename_i ps _ _ _
    exact .wholly rfl _ (fun _ hf => skip_le_of_mem_flaws hf) _ rfl

theorem flawsFit_ofInteger (digits : List Char) : (ofInteger digits).FlawsFit := by
  unfold ofInteger
  split
  · exact flawsFit_of_flawless (by simp) rfl
  · exact flawsFit_invalid _ _

theorem flawsFit_ofDouble (lexeme : List Char) (x : Double) : (ofDouble lexeme x).FlawsFit := by
  unfold ofDouble
  split
  · exact flawsFit_of_flawless (by simp) rfl
  · exact flawsFit_invalid _ _

theorem flawsFit_readNumber (text : List Char) : (readNumber text).1.FlawsFit := by
  unfold readNumber
  split
  · dsimp only
    split
    · exact flawsFit_invalid _ _
    · exact flawsFit_ofDouble _ _
  · exact flawsFit_ofInteger _

theorem flawsFit_readName (text : List Char) : (readName text).1.FlawsFit := by
  have hkeywords : ∀ p ∈ Token.Kind.keywords, p.2 ≠ .invalid := by decide
  unfold readName ofName
  split
  · rename_i kind hkind
    exact flawsFit_of_flawless (hkeywords _ (mem_of_lookup hkind)) rfl
  · exact flawsFit_of_flawless (by simp) rfl

theorem flawsFit_readMark (c : Char) (rest : List Char) : (readMark c rest).1.FlawsFit := by
  have hdoubles : ∀ p ∈ Token.Kind.doubles, p.2 ≠ .invalid := by decide
  have hsingles : ∀ p ∈ Token.Kind.singles, p.2 ≠ .invalid := by decide
  unfold readMark
  split
  · rename_i kind hkind
    obtain ⟨d, -, hlookup⟩ := Option.bind_eq_some_iff.1 hkind
    exact flawsFit_of_flawless (hdoubles _ (mem_of_lookup hlookup)) rfl
  · split
    · rename_i kind hkind
      exact flawsFit_of_flawless (hsingles _ (mem_of_lookup hkind)) rfl
    · exact flawsFit_invalid _ _

theorem flawsFit_read (c : Char) (rest : List Char) : (read c rest).1.FlawsFit := by
  unfold read
  split
  · exact flawsFit_readString rest
  · split
    · exact flawsFit_readNumber _
    · split
      · exact flawsFit_readName _
      · exact flawsFit_readMark c rest

end Word

/-! ## Tokens -/

section Tokens

variable {source file : String} {p q : Position} {v w : Word}

theorem flawsFit_of_placed (h : (p, w) ∈ placedWords source) : w.FlawsFit := by
  obtain ⟨c, rest, rfl⟩ := exists_read_of_mem_wordsOf (mem_wordsOf_of_placed h)
  exact Word.flawsFit_read c rest

/-- A flaw lies within its word. -/
theorem flawSpan_within (file : String) (p : Position) (w : Word) (f : Flaw) :
    (w.flawSpan file p f).start = p.offset + (min f.skip w.lexeme.length : Nat) ∧
      (w.flawSpan file p f).stop ≤ p.offset + w.lexeme.length := by
  simp only [Word.flawSpan, Span.between, Position.after_offset, List.length_take]
  omega

/-- A flaw behind the first character of a word is not on the place of the word. -/
theorem flawSpan_ne_of_skip (h : (p, w) ∈ placedWords source) {f : Flaw} (hf : 0 < f.skip) :
    w.flawSpan file p f ≠ (w.toToken file p).span := by
  intro heq
  have hpos := length_lexeme_pos h
  have hstart := (flawSpan_within file p w f).1
  rw [heq] at hstart
  simp only [Word.toToken, Span.between] at hstart
  omega

/-- A flaw of a word is not on the place of a word in front of it or behind it. -/
theorem flawSpan_ne_of_apart (h : (q, v) ∈ placedWords source)
    (hapart : q.offset + v.lexeme.length ≤ p.offset ∨ p.offset + w.lexeme.length ≤ q.offset)
    (f : Flaw) : w.flawSpan file p f ≠ (v.toToken file q).span := by
  intro heq
  have hpos := length_lexeme_pos h
  obtain ⟨hstart, hstop⟩ := flawSpan_within file p w f
  rw [heq] at hstart hstop
  simp only [Word.toToken, Span.between, Position.after_offset] at hstart hstop
  omega

/-- Only the flaw that concerns all of an invalid word is on the place of the word. -/
theorem filter_diagnostics_self (file : String) (h : (p, w) ∈ placedWords source)
    (hkind : w.kind = .invalid) :
    ∃ d, d.production = none ∧
      (w.diagnostics file p).filter (fun d => d.span = some (w.toToken file p).span) = [d] := by
  cases flawsFit_of_placed h with
  | partly kind => exact absurd hkind kind
  | wholly _ inner inside fault flaws =>
    refine ⟨.error fault.message (some (w.toToken file p).span) none, rfl, ?_⟩
    have hinner : (inner.map fun f => Diagnostic.error f.fault.message
        (some (w.flawSpan file p f)) none).filter
          (fun d => d.span = some (w.toToken file p).span) = [] := by
      refine List.filter_eq_nil_iff.2 (List.forall_mem_map.2 fun f hf => ?_)
      simpa [Diagnostic.error] using flawSpan_ne_of_skip h (inside f hf)
    have hwhole : w.flawSpan file p ⟨fault, 0, w.lexeme.length⟩ = (w.toToken file p).span := by
      simp [Word.flawSpan, Word.toToken, Position.after]
    rw [Word.diagnostics, flaws, List.map_append, List.filter_append, hinner]
    simp [Diagnostic.error, hwhole]

/-- What is reported about other words is not on the place of a word. -/
theorem filter_diagnostics_apart (h : (q, v) ∈ placedWords source)
    {words : List (Position × Word)}
    (hapart : ∀ x ∈ words, q.offset + v.lexeme.length ≤ x.1.offset ∨
      x.1.offset + x.2.lexeme.length ≤ q.offset) :
    (words.flatMap fun x => x.2.diagnostics file x.1).filter
      (fun d => d.span = some (v.toToken file q).span) = [] := by
  refine List.filter_eq_nil_iff.2 fun d hd => ?_
  obtain ⟨x, hx, hd⟩ := List.mem_flatMap.1 hd
  obtain ⟨f, -, rfl⟩ := List.mem_map.1 hd
  simpa [Diagnostic.error] using flawSpan_ne_of_apart h (hapart x hx) f

/-- Exactly one diagnostic is on the place of an invalid token. -/
theorem exists_diagnostic_of_invalid {t : Token} (h : t ∈ (lex source file).stream.ahead)
    (hkind : t.kind = .invalid) : ∃ d, d.production = none ∧
      (lex source file).diagnostics.filter (fun d => d.span = some t.span) = [d] := by
  obtain ⟨⟨p, w⟩, hmem, rfl⟩ := List.mem_map.1 h
  change (p, w) ∈ placedWords source at hmem
  obtain ⟨d, hproduction, hself⟩ := filter_diagnostics_self file hmem hkind
  refine ⟨d, hproduction, ?_⟩
  obtain ⟨before, behind, hsplit⟩ := List.append_of_mem hmem
  have hapart : (placedWords source).Pairwise _ :=
    Chunk.pairwise_placed .start (Chunk.ofSource source.toList)
  rw [hsplit] at hapart
  obtain ⟨-, hbehind, hbefore⟩ := List.pairwise_append.1 hapart
  rw [diagnostics_lex_placed, hsplit, List.flatMap_append, List.flatMap_cons, List.filter_append,
    List.filter_append, hself,
    filter_diagnostics_apart hmem fun x hx => .inr (hbefore x hx _ List.mem_cons_self),
    filter_diagnostics_apart hmem fun x hx => .inl ((List.pairwise_cons.1 hbehind).1 x hx)]
  rfl

end Tokens

end RuleLang
