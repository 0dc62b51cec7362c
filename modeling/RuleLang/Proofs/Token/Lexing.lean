import RuleLang.Proofs.Token.WellMade

/-!
From texts to tokens. The tokens of a source text are its words, each with its place: a token is as
long as its lexeme, and nothing is reported about words without flaws.
-/
namespace RuleLang

/-- The word without what is wrong with it. -/
def Word.flawless (w : Word) : Word := { w with flaws := [] }

theorem Word.flawless_eq_self {w : Word} (h : w.flaws = []) : w.flawless = w := by
  obtain ⟨kind, lexeme, value, flaws⟩ := w
  obtain rfl : flaws = [] := h
  rfl

/-- A token as it stands in a source text: it does not mark its end, and is as long as its
lexeme. -/
structure Token.Placed (t : Token) : Prop where
  notEnd : t.kind ≠ .eof
  length : t.span.stop = t.span.start + t.lexeme.toList.length

/-- If the token is a semicolon, it has a length. -/
def Token.Measured (t : Token) : Prop :=
  t.kind = .semicolon → ∃ empty, t.span.isEmpty = .ok empty

/-- A token of one character is not empty. -/
theorem Token.Placed.isEmpty_span {t : Token} {c : Char} (h : t.Placed)
    (hlexeme : t.lexeme.toList = [c]) : t.span.isEmpty = .ok false := by
  have hlength := h.length
  rw [hlexeme] at hlength
  simp only [List.length_singleton] at hlength
  have hmeasured : t.span.length = .ok 1 := by
    rw [Span.length, if_neg (by omega), if_neg (by omega)]
    congr 1
    omega
  rw [Span.isEmpty, hmeasured]
  rfl

@[simp] theorem Word.word_toToken (file : String) (p : Position) (w : Word) :
    (w.toToken file p).word = w.flawless := by
  simp [toToken, Token.word, flawless]

/-- Placing words changes neither the words nor their order. -/
theorem Chunk.snd_placed (p : Position) (chunks : List Chunk) :
    (placed p chunks).map Prod.snd = chunks.filterMap word? := by
  induction chunks generalizing p with
  | nil => rfl
  | cons chunk chunks ih =>
    cases chunk with
    | gap cs => exact ih _
    | word w => exact congrArg (w :: ·) (ih _)

section Lexing

variable (source file : String)

/-- The words of a source text with their places. -/
theorem exists_placed : ∃ placed : List (Position × Word),
    placed.map Prod.snd = wordsOf source.toList ∧
    (lex source file).stream.ahead = placed.map (fun (p, w) => w.toToken file p) ∧
    (lex source file).diagnostics = placed.flatMap fun (p, w) => w.diagnostics file p :=
  ⟨_, Chunk.snd_placed _ _, rfl, rfl⟩

/-- The tokens of a source text are its words. -/
theorem word_lex :
    (lex source file).stream.ahead.map Token.word =
      (wordsOf source.toList).map Word.flawless := by
  obtain ⟨placed, hwords, hahead, -⟩ := exists_placed source file
  rw [← hwords, hahead, List.map_map, List.map_map]
  exact List.map_congr_left fun _ _ => Word.word_toToken _ _ _

/-- Nothing is reported about words without flaws. -/
theorem diagnostics_lex (h : ∀ w ∈ wordsOf source.toList, w.flaws = []) :
    (lex source file).diagnostics = [] := by
  obtain ⟨placed, hwords, -, hdiagnostics⟩ := exists_placed source file
  rw [hdiagnostics, List.flatMap_eq_nil_iff]
  rintro ⟨p, w⟩ hmem
  have hflaws : w.flaws = [] := h w (hwords ▸ List.mem_map_of_mem (f := Prod.snd) hmem)
  simp only [Word.diagnostics, hflaws, List.map_nil]

/-- Words without flaws are the tokens of their text. -/
theorem word_lex_of_flawless (h : ∀ w ∈ wordsOf source.toList, w.flaws = []) :
    (lex source file).stream.ahead.map Token.word = wordsOf source.toList := by
  rw [word_lex]
  exact (List.map_congr_left fun w hw => Word.flawless_eq_self (h w hw)).trans (List.map_id _)

/-- A text that is one word without flaws is one token, with nothing to report. -/
theorem lex_of_word {w : Word} (h : wordsOf source.toList = [w]) (hflaws : w.flaws = []) :
    ∃ t, (lex source file).stream.ahead = [t] ∧ t.word = w ∧
      (lex source file).diagnostics = [] := by
  have hflawless : ∀ w' ∈ wordsOf source.toList, w'.flaws = [] := by
    rw [h]
    exact List.forall_mem_singleton.2 hflaws
  obtain ⟨t, hahead, ht⟩ :=
    List.map_eq_singleton_iff.1 ((word_lex_of_flawless source file hflawless).trans h)
  exact ⟨t, hahead, ht, diagnostics_lex source file hflawless⟩

variable {source file} {t : Token}

theorem exists_of_mem_lex (h : t ∈ (lex source file).stream.ahead) :
    ∃ p, ∃ w ∈ wordsOf source.toList, t = w.toToken file p := by
  obtain ⟨placed, hwords, hahead, -⟩ := exists_placed source file
  rw [hahead] at h
  obtain ⟨⟨p, w⟩, hmem, rfl⟩ := List.mem_map.1 h
  exact ⟨p, w, hwords ▸ List.mem_map_of_mem (f := Prod.snd) hmem, rfl⟩

theorem mem_ahead_of_mem_tokens (h : t ∈ (lex source file).tokens) (hkind : t.kind ≠ .eof) :
    t ∈ (lex source file).stream.ahead := by
  refine (List.mem_append.1 h).resolve_right fun hlast => hkind ?_
  rw [List.mem_singleton.1 hlast]
  exact (lex source file).stream.last_eof

/-- A token of a source text is what its kind says. -/
theorem wellMade_of_mem_lex (h : t ∈ (lex source file).stream.ahead) : t.word.WellMade := by
  obtain ⟨p, w, hw, rfl⟩ := exists_of_mem_lex h
  rw [Word.word_toToken]
  obtain ⟨hend, hname, hliteral, hfixed⟩ := wellMade_of_mem_wordsOf hw
  exact ⟨hend, hname, hliteral, hfixed⟩

theorem placed_of_mem_lex (h : t ∈ (lex source file).stream.ahead) : t.Placed := by
  refine ⟨(wellMade_of_mem_lex h).notEnd, ?_⟩
  obtain ⟨p, w, -, rfl⟩ := exists_of_mem_lex h
  simp [Word.toToken, Span.between]

/-- The semicolons of a source text are not empty. -/
theorem isEmpty_of_mem_lex (h : t ∈ (lex source file).stream.ahead) (hkind : t.kind = .semicolon) :
    t.span.isEmpty = .ok false := by
  have hspelled : ∀ p ∈ Token.Kind.spellings, p.2 = .semicolon → p.1.toList = [';'] := by decide
  have hfixed : t.word.kind ∈ Token.Kind.spellings.map Prod.snd := by
    rw [show t.word.kind = .semicolon from hkind]
    decide
  have hlexeme := hspelled _ ((wellMade_of_mem_lex h).fixed hfixed) hkind
  rw [String.toList_ofList] at hlexeme
  exact (placed_of_mem_lex h).isEmpty_span hlexeme

theorem measured_of_mem_lex (h : t ∈ (lex source file).stream.ahead) : t.Measured :=
  fun hkind => ⟨false, isEmpty_of_mem_lex h hkind⟩

theorem endsOnce_lex : ∀ t ∈ (lex source file).stream.ahead, t.kind ≠ .eof :=
  fun _ ht => (placed_of_mem_lex ht).notEnd

end Lexing

end RuleLang
