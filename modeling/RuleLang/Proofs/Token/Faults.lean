import RuleLang.Proofs.Token.Flaws
import RuleLang.Proofs.Token.Spacing

/-!
Where the words of a text are at fault. An unknown escape is told by the backslashes in front of it:
an even number of them leaves the next one unescaped. The diagnostics of a text stand on the places
of these escapes and of the invalid tokens, one on each and in their order (`faults_reported`).
-/
namespace RuleLang

namespace Lexical

/-- The characters that have a meaning behind a backslash. -/
def escapable : List Char := ['"', '\\', 'n']

/-- The number of backslashes that a text ends with. -/
def backslashesAtEnd (cs : List Char) : Nat := (cs.reverse.takeWhile (· = '\\')).length

/-- Whether an unknown escape stands at an offset of the lexeme of a string: a backslash that is not
escaped itself, in front of a character that has no meaning behind one. -/
def isUnknownEscape (lexeme : List Char) (k : Nat) : Bool :=
  lexeme[k]? = some '\\' && backslashesAtEnd (lexeme.take k) % 2 = 0 &&
    lexeme[k + 1]?.any fun c => c ∉ escapable

/-- The offsets of the unknown escapes behind the front of a lexeme. -/
def unknownEscapesBehind (front behind : List Char) : List Nat :=
  (List.range' front.length behind.length).filter (isUnknownEscape (front ++ behind))

/-- The offsets of the unknown escapes of a lexeme. There are none but in strings, which begin with
a quote, closed or not. -/
def unknownEscapes (lexeme : List Char) : List Nat :=
  if lexeme.head? = some '"' then unknownEscapesBehind [] lexeme else []

@[simp] theorem backslashesAtEnd_append_singleton (cs : List Char) (c : Char) :
    backslashesAtEnd (cs ++ [c]) = if c = '\\' then backslashesAtEnd cs + 1 else 0 := by
  by_cases h : c = '\\' <;> simp [backslashesAtEnd, h]

/-- An escape behind the front of a lexeme is told by the end of the front and the next two
characters. -/
theorem isUnknownEscape_front (front : List Char) (c : Char) (behind : List Char) :
    isUnknownEscape (front ++ c :: behind) front.length =
      (c = '\\' && backslashesAtEnd front % 2 = 0 && behind.head?.any fun d => d ∉ escapable) := by
  have hnext : (front ++ c :: behind)[front.length + 1]? = behind.head? := by
    rw [List.getElem?_append_right (Nat.le_succ _), List.head?_eq_getElem?]
    simp
  simp [isUnknownEscape, hnext]

theorem unknownEscapesBehind_cons (front : List Char) (c : Char) (behind : List Char) :
    unknownEscapesBehind front (c :: behind) =
      (if isUnknownEscape (front ++ c :: behind) front.length then [front.length] else []) ++
        unknownEscapesBehind (front ++ [c]) behind := by
  simp only [unknownEscapesBehind, List.length_cons, List.range'_succ, List.filter_cons,
    List.length_append, List.length_nil, List.append_assoc, List.singleton_append]
  split <;> rfl

theorem unknownEscapesBehind_raw {c : Char} (hc : c ≠ '\\') (front behind : List Char) :
    unknownEscapesBehind front (c :: behind) = unknownEscapesBehind (front ++ [c]) behind := by
  simp [unknownEscapesBehind_cons, isUnknownEscape_front, hc]

/-- Behind a backslash that is not escaped itself, the next character is. -/
theorem isUnknownEscape_escaped {front : List Char} (h : backslashesAtEnd front % 2 = 0)
    (c : Char) (behind : List Char) :
    isUnknownEscape (front ++ ['\\'] ++ c :: behind) (front ++ ['\\']).length = false := by
  have hodd : ¬(backslashesAtEnd front + 1) % 2 = 0 := by omega
  rw [isUnknownEscape_front, backslashesAtEnd_append_singleton, if_pos rfl, decide_eq_false hodd,
    Bool.and_false, Bool.false_and]

/-- What stands behind an escape is not escaped. -/
theorem backslashesAtEnd_escaped {front : List Char} (h : backslashesAtEnd front % 2 = 0)
    (c : Char) : backslashesAtEnd (front ++ ['\\', c]) % 2 = 0 := by
  have hsplit : front ++ ['\\', c] = front ++ ['\\'] ++ [c] := by simp
  rw [hsplit, backslashesAtEnd_append_singleton, backslashesAtEnd_append_singleton, if_pos rfl]
  split <;> omega

theorem unknownEscapesBehind_escaped {front : List Char} (h : backslashesAtEnd front % 2 = 0)
    (c : Char) (behind : List Char) :
    unknownEscapesBehind front ('\\' :: c :: behind) =
      (if c ∈ escapable then [] else [front.length]) ++
        unknownEscapesBehind (front ++ ['\\', c]) behind := by
  rw [unknownEscapesBehind_cons, unknownEscapesBehind_cons, isUnknownEscape_escaped h,
    isUnknownEscape_front, h]
  by_cases hc : c ∈ escapable <;> simp [hc]

theorem mem_unknownEscapes {lexeme : List Char} {k : Nat} (h : k ∈ unknownEscapes lexeme) :
    0 < k ∧ k + 2 ≤ lexeme.length := by
  unfold unknownEscapes at h
  split at h
  · rename_i hquote
    have hescape := (List.mem_filter.1 h).2
    simp only [List.nil_append, isUnknownEscape, Bool.and_eq_true, decide_eq_true_eq,
      Option.any_eq_true] at hescape
    obtain ⟨⟨hbackslash, -⟩, c, hc, -⟩ := hescape
    refine ⟨Nat.pos_of_ne_zero ?_, (List.getElem?_eq_some_iff.1 hc).1⟩
    rintro rfl
    rw [← List.head?_eq_getElem?, hquote] at hbackslash
    cases hbackslash
  · cases h

theorem pairwise_unknownEscapes (lexeme : List Char) :
    (unknownEscapes lexeme).Pairwise (· < ·) := by
  unfold unknownEscapes
  split
  · exact (List.pairwise_lt_range' _).filter _
  · exact .nil

end Lexical

open Lexical

/-! ## Strings -/

/-- The offset and the width of each flaw. -/
def Word.extents (flaws : List Flaw) : List (Nat × Nat) := flaws.map fun f => (f.skip, f.width)

namespace StringPiece

theorem lookup_escapes_isSome (c : Char) :
    (escapes.lookup c).isSome = true ↔ c ∈ escapable := by
  simp only [escapes, escapable, List.lookup_cons, List.lookup_nil]
  grind

/-- A backslash never stands for itself. -/
theorem ne_backslash_of_raw {cs : List Char} {c : Char} (h : .raw c ∈ (readMany cs).1) :
    c ≠ '\\' := by
  fun_induction readMany cs with
  | case1 | case2 | case3 => cases h
  | case4 d rest ps tail hread _ ih =>
    rw [hread] at ih
    exact ih (by simpa using h)
  | case5 d rest _ hbackslash ps tail hread ih =>
    rw [hread] at ih
    obtain heq | h := List.mem_cons.1 h
    · cases heq
      exact hbackslash
    · exact ih h

/-- Without a closing quote, nothing is left behind the pieces but a backslash at the end. -/
theorem tail_readMany (cs : List Char) :
    (∃ rest, (readMany cs).2 = '"' :: rest) ∨ (readMany cs).2 ∈ [[], ['\\']] := by
  fun_induction readMany cs <;> simp_all

/-- The flaws of the pieces of a string are its unknown escapes. -/
theorem extents_flaws {ps : List StringPiece} (hraw : ∀ c, .raw c ∈ ps → c ≠ '\\')
    {tail : List Char} (htail : tail ∈ [[], ['\\'], ['"']]) (front : List Char)
    (hfront : backslashesAtEnd front % 2 = 0) :
    Word.extents (flaws front.length ps) =
      (unknownEscapesBehind front (ps.flatMap written ++ tail)).map (·, 2) := by
  induction ps generalizing front with
  | nil =>
    simp only [List.mem_cons, List.not_mem_nil, or_false] at htail
    obtain rfl | rfl | rfl := htail
    · rfl
    · simp [unknownEscapesBehind, isUnknownEscape_front, flaws, Word.extents]
    · simp [unknownEscapesBehind, isUnknownEscape_front, flaws, Word.extents]
  | cons p ps ih =>
    have hps (c : Char) (hc : .raw c ∈ ps) : c ≠ '\\' := hraw c (List.mem_cons_of_mem p hc)
    cases p with
    | raw c =>
      have hc : c ≠ '\\' := hraw c List.mem_cons_self
      have hnext := ih hps (front ++ [c]) (by simp [hc])
      rw [List.flatMap_cons, written, List.singleton_append, List.cons_append,
        unknownEscapesBehind_raw hc, ← hnext, List.length_append]
      rfl
    | escaped c =>
      have hnext := ih hps _ (backslashesAtEnd_escaped hfront c)
      rw [List.flatMap_cons, written, List.append_assoc, List.cons_append, List.singleton_append,
        unknownEscapesBehind_escaped hfront, List.map_append, ← hnext, List.length_append]
      simp only [flaws, lookup_escapes_isSome]
      split <;> rfl

end StringPiece

/-! ## Words -/

namespace Word

/-- The flaws of a word are its unknown escapes and then, if it is invalid, one of its length. -/
def FlawsTold (w : Word) : Prop :=
  extents w.flaws = (unknownEscapes w.lexeme).map (·, 2) ++
    if w.kind = .invalid then [(0, w.lexeme.length)] else []

theorem flawsTold_readString (body : List Char) : (readString body).1.FlawsTold := by
  have hraw : ∀ c, .raw c ∈ (StringPiece.readMany body).1 → c ≠ '\\' := fun _ =>
    StringPiece.ne_backslash_of_raw
  have hwritten := StringPiece.written_readMany body
  have htail := StringPiece.tail_readMany body
  generalize hread : StringPiece.readMany body = read at hraw hwritten htail
  obtain ⟨ps, tail⟩ := read
  have hflaws (tail : List Char) (h : tail ∈ [[], ['\\'], ['"']]) :
      extents (StringPiece.flaws 1 ps) =
        (unknownEscapes ('"' :: (ps.flatMap StringPiece.written ++ tail))).map (·, 2) := by
    rw [unknownEscapes, List.head?_cons, if_pos rfl, unknownEscapesBehind_raw (by decide)]
    exact StringPiece.extents_flaws hraw h ['"'] (by decide)
  obtain ⟨rest, rfl⟩ | htail := htail
  · have hquote := hflaws ['"'] (by decide)
    rw [readString_closed hread, FlawsTold, hquote]
    simp
  · have hunclosed : (readString body).1 = { invalid ('"' :: body) .unterminatedString with
        flaws := StringPiece.flaws 1 ps ++ (invalid ('"' :: body) .unterminatedString).flaws } := by
      unfold readString
      split
      · rename_i heq
        rw [hread] at heq
        obtain ⟨rfl, rfl⟩ := Prod.mk.inj heq
        simp at htail
      · rename_i heq
        rw [hread] at heq
        obtain ⟨rfl, rfl⟩ := Prod.mk.inj heq
        rfl
    rw [hunclosed, FlawsTold, extents, List.map_append, ← hwritten]
    exact congrArg (· ++ _) (hflaws tail (List.mem_append_left [['"']] htail))

/-- But for strings, a flaw of a word concerns all of it. -/
theorem skip_of_mem_flaws {c : Char} (hc : c ≠ '"') (rest : List Char) :
    ∀ f ∈ (read c rest).1.flaws, f.skip = 0 := by
  have hinvalid (lexeme : List Char) (fault : LexicalFault) :
      ∀ f ∈ (invalid lexeme fault).flaws, f.skip = 0 := List.forall_mem_singleton.2 rfl
  have hdecimal (whole fraction : List Char) :
      ∀ f ∈ (ofDecimal whole fraction).flaws, f.skip = 0 := by
    unfold ofDecimal ofDouble
    split
    · exact List.forall_mem_nil _
    · exact hinvalid _ _
  unfold read
  split
  · contradiction
  · split
    · unfold readNumber ofInteger
      dsimp only
      split
      · split
        · exact hinvalid _ _
        · exact hdecimal _ _
      · split
        · exact List.forall_mem_nil _
        · exact hinvalid _ _
    · split
      · unfold readName ofName
        split <;> exact List.forall_mem_nil _
      · unfold readMark
        split
        · exact List.forall_mem_nil _
        · split
          · exact List.forall_mem_nil _
          · exact hinvalid _ _

theorem head?_lexeme_read (c : Char) (rest : List Char) :
    (read c rest).1.lexeme.head? = some c := by
  obtain ⟨d, lexeme, hlexeme⟩ := List.exists_cons_of_ne_nil (lexeme_read_ne_nil c rest)
  have happend := read_append c rest
  rw [hlexeme] at happend ⊢
  rw [List.head?_cons, (List.cons.inj happend).1]

/-- What is wrong with a word can be told from its kind and its lexeme. -/
theorem flawsTold_read (c : Char) (rest : List Char) : (read c rest).1.FlawsTold := by
  by_cases hc : c = '"'
  · subst hc
    exact flawsTold_readString rest
  · have hskip := skip_of_mem_flaws hc rest
    have hescapes : unknownEscapes (read c rest).1.lexeme = [] := by
      rw [unknownEscapes, head?_lexeme_read, if_neg (by simpa using hc)]
    have hinner (inner : List Flaw) (hinner : inner ⊆ (read c rest).1.flaws)
        (inside : ∀ f ∈ inner, 0 < f.skip) : inner = [] :=
      List.eq_nil_iff_forall_not_mem.2 fun f hf =>
        Nat.ne_of_gt (inside f hf) (hskip f (hinner hf))
    rw [FlawsTold, hescapes]
    cases flawsFit_read c rest with
    | partly kind inside =>
      rw [if_neg kind, hinner _ (List.Subset.refl _) inside]
      rfl
    | wholly kind inner inside fault flaws =>
      rw [if_pos kind, flaws, hinner inner (flaws ▸ List.subset_append_left _ _) inside]
      rfl

section Extents

variable {w : Word} (h : w.FlawsTold)
include h

theorem FlawsTold.extent_cases {k n : Nat} (hmem : (k, n) ∈ extents w.flaws) :
    k ∈ unknownEscapes w.lexeme ∧ n = 2 ∨ w.kind = .invalid ∧ k = 0 ∧ n = w.lexeme.length := by
  rw [h, List.mem_append, List.mem_map] at hmem
  obtain ⟨j, hj, heq⟩ | hmem := hmem
  · cases heq
    exact .inl ⟨hj, rfl⟩
  · split at hmem
    · rename_i hkind
      cases List.mem_singleton.1 hmem
      exact .inr ⟨hkind, rfl, rfl⟩
    · cases hmem

theorem FlawsTold.extent_le {k n : Nat} (hmem : (k, n) ∈ extents w.flaws) :
    k + n ≤ w.lexeme.length := by
  obtain ⟨hk, rfl⟩ | ⟨-, rfl, rfl⟩ := h.extent_cases hmem
  · exact (mem_unknownEscapes hk).2
  · omega

/-- Flaws end one behind the other, and no two of them begin together. -/
theorem FlawsTold.pairwise : (extents w.flaws).Pairwise fun a b =>
    a.1 + a.2 ≤ b.1 + b.2 ∧ a.1 ≠ b.1 := by
  rw [h]
  refine List.pairwise_append.2 ⟨List.pairwise_map.2 ?_, ?_, ?_⟩
  · exact (pairwise_unknownEscapes w.lexeme).imp fun hlt => by omega
  · split
    · exact List.pairwise_singleton _ _
    · exact .nil
  · intro a ha b hb
    obtain ⟨k, hk, rfl⟩ := List.mem_map.1 ha
    have := mem_unknownEscapes hk
    split at hb
    · cases List.mem_singleton.1 hb
      omega
    · cases hb

end Extents

end Word

/-! ## Tokens -/

/-- The spans of what is wrong with a token of a text: of its unknown escapes, each a backslash and
the character behind it, and then of all of it if it is invalid. -/
def Token.faultSpans (text : List Char) (t : Token) : List Span :=
  (unknownEscapes t.lexeme.toList).map (fun k =>
      .stretch t.span.file text (t.span.start.toNat + k) (t.span.start.toNat + k + 2)) ++
    if t.kind = .invalid then [t.span] else []

section Tokens

variable {source file : String} {p : Position} {w : Word}

theorem flawsTold_of_placed (h : (p, w) ∈ placedWords source) : w.FlawsTold := by
  obtain ⟨c, rest, rfl⟩ := exists_read_of_mem_wordsOf (mem_wordsOf_of_placed h)
  exact Word.flawsTold_read c rest

/-- Only strings, closed or not, begin with a quote. -/
theorem kind_of_mem_unknownEscapes (h : (p, w) ∈ placedWords source) {k : Nat}
    (hk : k ∈ unknownEscapes w.lexeme) : w.kind = .string ∨ w.kind = .invalid := by
  obtain ⟨c, rest, rfl⟩ := exists_read_of_mem_wordsOf (mem_wordsOf_of_placed h)
  by_cases hc : c = '"'
  · subst hc
    change (Word.readString rest).1.kind = _ ∨ (Word.readString rest).1.kind = _
    unfold Word.readString
    split
    · exact .inl rfl
    · exact .inr rfl
  · rw [unknownEscapes, Word.head?_lexeme_read, if_neg (by simpa using hc)] at hk
    cases hk

/-- The place of a part of a word is counted from the beginning of the text. -/
theorem after_take_of_placed (h : (p, w) ∈ placedWords source) {n : Nat}
    (hn : n ≤ w.lexeme.length) :
    p.after (w.lexeme.take n) = .ofOffset source.toList (p.offset + n) := by
  obtain ⟨front, rfl, hprefix⟩ := exists_front h
  have hpart : front ++ w.lexeme.take n <+: source.toList :=
    ((List.prefix_append_right_inj front).2 (List.take_prefix n w.lexeme)).trans hprefix
  rw [← Position.after_append, Position.start_after_prefix hpart, List.length_append,
    List.length_take, Nat.min_eq_left hn, Position.after_offset]
  simp [Position.start]

theorem span_toToken (h : (p, w) ∈ placedWords source) :
    (w.toToken file p).span =
      .stretch file source.toList p.offset (p.offset + w.lexeme.length) := by
  have hfront := after_take_of_placed h (Nat.zero_le w.lexeme.length)
  have hbehind := after_take_of_placed h (Nat.le_refl w.lexeme.length)
  rw [List.take_zero, Position.after_nil, Nat.add_zero] at hfront
  rw [List.take_length] at hbehind
  rw [Span.stretch, ← hfront, ← hbehind]
  rfl

theorem faultSpans_toToken (h : (p, w) ∈ placedWords source) :
    (w.toToken file p).faultSpans source.toList = (Word.extents w.flaws).map fun (k, n) =>
      .stretch file source.toList (p.offset + k) (p.offset + k + n) := by
  have hoffset : (w.toToken file p).span.start.toNat = p.offset := rfl
  have hlexeme : (w.toToken file p).lexeme.toList = w.lexeme := String.toList_ofList
  have hfile : (w.toToken file p).span.file = file := rfl
  have hkind : (w.toToken file p).kind = w.kind := rfl
  rw [Token.faultSpans, hoffset, hlexeme, hfile, hkind, flawsTold_of_placed h, List.map_append,
    List.map_map, span_toToken h]
  refine congrArg _ ?_
  split <;> rfl

/-- What is reported about a word stands on the spans of its faults. -/
theorem spans_diagnostics (h : (p, w) ∈ placedWords source) :
    (w.diagnostics file p).map Diagnostic.span =
      ((w.toToken file p).faultSpans source.toList).map some := by
  rw [faultSpans_toToken h, Word.extents, Word.diagnostics, List.map_map, List.map_map,
    List.map_map]
  refine List.map_congr_left fun f hf => ?_
  have hwithin : f.skip + f.width ≤ w.lexeme.length :=
    (flawsTold_of_placed h).extent_le (List.mem_map_of_mem hf)
  have hfront := after_take_of_placed h (Nat.le_trans (Nat.le_add_right _ _) hwithin)
  have hbehind := after_take_of_placed h hwithin
  simp only [Function.comp_apply, Diagnostic.error, Word.flawSpan, hfront, hbehind, Span.stretch,
    Nat.add_assoc]

/-- The spans of the faults of a token lie within its own span. -/
theorem faultSpans_within (h : (p, w) ∈ placedWords source) :
    ∀ s ∈ (w.toToken file p).faultSpans source.toList, (w.kind = .string ∨ w.kind = .invalid) ∧
      (w.toToken file p).span.start ≤ s.start ∧ s.start < s.stop ∧
      s.stop ≤ (w.toToken file p).span.stop := by
  rw [faultSpans_toToken h, List.forall_mem_map, span_toToken h]
  rintro ⟨k, n⟩ hmem
  have htold := flawsTold_of_placed h
  have hpos := length_lexeme_pos h
  have hle := htold.extent_le hmem
  have hstretch : ∀ i j, (Span.stretch file source.toList i j).start = i ∧
      (Span.stretch file source.toList i j).stop = j := fun _ _ => ⟨rfl, rfl⟩
  simp only [hstretch]
  obtain ⟨hk, rfl⟩ | ⟨hkind, rfl, rfl⟩ := htold.extent_cases hmem
  · exact ⟨kind_of_mem_unknownEscapes h hk, by omega⟩
  · exact ⟨.inr hkind, by omega⟩

/-- They end one behind the other, and no two of them are the same. -/
theorem pairwise_faultSpans (h : (p, w) ∈ placedWords source) :
    ((w.toToken file p).faultSpans source.toList).Pairwise fun s t => s.stop ≤ t.stop ∧ s ≠ t := by
  rw [faultSpans_toToken h, List.pairwise_map]
  refine (flawsTold_of_placed h).pairwise.imp fun {a b} hab => ⟨?_, fun heq => hab.2 ?_⟩
  · have := hab.1
    simp only [Span.stretch, Span.between, Position.ofOffset]
    omega
  · have := congrArg Span.start heq
    simp only [Span.stretch, Span.between, Position.ofOffset] at this
    omega

end Tokens

/-- What is reported about a source text: one diagnostic for each unknown escape, on the backslash
and the character behind it, and one for each invalid token, on all of it. They are in the order of
the tokens, for each token those of its escapes first, so they end one behind the other. No two
stand on the same place, each lies within a token that is a string or invalid, and none names a rule
of the grammar. In particular there is none exactly if no token is invalid and no string has an
unknown escape. -/
theorem faults_reported (source file : String) :
    let lexed := lex source file
    let spans := lexed.tokens.flatMap (Token.faultSpans source.toList)
    lexed.diagnostics.map Diagnostic.span = spans.map some ∧
    (∀ d ∈ lexed.diagnostics, d.production = none) ∧
    (∀ s ∈ spans, ∃ t ∈ lexed.tokens, (t.kind = .string ∨ t.kind = .invalid) ∧
      t.span.start ≤ s.start ∧ s.stop ≤ t.span.stop) ∧
    spans.Pairwise (fun s t => s.stop ≤ t.stop ∧ s ≠ t) ∧
    (lexed.diagnostics = [] ↔
      ∀ t ∈ lexed.tokens, t.kind ≠ .invalid ∧ unknownEscapes t.lexeme.toList = []) := by
  intro lexed spans
  have htokens : lexed.tokens =
      (placedWords source).map (fun x => x.2.toToken file x.1) ++ [lexed.stream.last] := rfl
  have hspans : spans = (placedWords source).flatMap fun x =>
      (x.2.toToken file x.1).faultSpans source.toList := by
    change lexed.tokens.flatMap _ = _
    rw [htokens, List.flatMap_append, List.flatMap_map]
    exact List.append_nil _
  have hdiagnostics : lexed.diagnostics.map Diagnostic.span = spans.map some := by
    rw [hspans, List.map_flatMap]
    change ((placedWords source).flatMap fun x => x.2.diagnostics file x.1).map _ = _
    rw [List.map_flatMap]
    exact List.flatMap_congr fun x hx => spans_diagnostics hx
  refine ⟨hdiagnostics, ?_, ?_, ?_, ?_⟩
  · intro d hd
    obtain ⟨x, -, hd⟩ := List.mem_flatMap.1 hd
    obtain ⟨f, -, rfl⟩ := List.mem_map.1 hd
    rfl
  · intro s hs
    rw [hspans] at hs
    obtain ⟨x, hx, hs⟩ := List.mem_flatMap.1 hs
    obtain ⟨hkind, hstart, -, hstop⟩ := faultSpans_within hx s hs
    refine ⟨x.2.toToken file x.1, ?_, hkind, hstart, hstop⟩
    rw [htokens]
    exact List.mem_append_left _ (List.mem_map_of_mem (f := fun x => x.2.toToken file x.1) hx)
  · rw [hspans, List.pairwise_flatMap]
    refine ⟨fun x hx => pairwise_faultSpans hx, ?_⟩
    have hapart : (placedWords source).Pairwise _ :=
      Chunk.pairwise_placed .start (Chunk.ofSource source.toList)
    refine hapart.imp_of_mem fun {x y} hx hy hxy s hs t ht => ?_
    obtain ⟨-, -, hpos, hstop⟩ := faultSpans_within hx s hs
    obtain ⟨-, hstart, hpos', -⟩ := faultSpans_within hy t ht
    simp only [Word.toToken, Span.between, Position.after_offset] at hstop hstart
    refine ⟨by omega, fun heq => ?_⟩
    subst heq
    omega
  · rw [← List.map_eq_nil_iff (f := Diagnostic.span), hdiagnostics, List.map_eq_nil_iff]
    change lexed.tokens.flatMap _ = [] ↔ _
    rw [List.flatMap_eq_nil_iff]
    refine forall₂_congr fun t _ => ?_
    simp only [Token.faultSpans, List.append_eq_nil_iff, List.map_eq_nil_iff, ite_eq_right_iff,
      List.cons_ne_nil, imp_false]
    exact and_comm

/-- An unclosed string with two unknown escapes, which ends with a backslash. -/
example : (lex "\"\\q\\\\\\z\\" "rule").diagnostics.map Diagnostic.span =
    [some ⟨"rule", 1, 3, 1, 2, 1, 4⟩, some ⟨"rule", 5, 7, 1, 6, 1, 8⟩,
      some ⟨"rule", 0, 8, 1, 1, 1, 9⟩] := by decide +kernel

end RuleLang
