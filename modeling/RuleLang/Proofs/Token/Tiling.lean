import Mathlib.Data.List.Induction
import RuleLang.Proofs.Grammar.Steps
import RuleLang.Proofs.Token.Munch

/-!
Where the tokens of a source text stand. The place of an offset is counted from the text in front of
it (`Position.ofOffset`), and every span that the lexer gives is that of a stretch of the text.
Tokens stand one behind the other, and what lies between them is blank or a comment (`tokens_tile`).
-/
namespace RuleLang

namespace Position

/-- The place of an offset of a text. Its line is one more than there are line feeds in front of it,
and its column one more than there are characters behind the last of these. -/
def ofOffset (text : List Char) (offset : Nat) : Position :=
  let before := text.take offset
  ⟨offset, 1 + before.count '\n', 1 + (before.reverse.takeWhile (· ≠ '\n')).length⟩

/-- Passing characters one by one counts the lines and columns of the text. -/
theorem start_after (cs : List Char) :
    start.after cs =
      ⟨cs.length, 1 + cs.count '\n', 1 + (cs.reverse.takeWhile (· ≠ '\n')).length⟩ := by
  induction cs using List.reverseRecOn with
  | nil => rfl
  | append_singleton cs c ih =>
    rw [after_append, ih]
    by_cases hc : c = '\n'
    · subst hc
      simp [after, next]
      omega
    · simp [after, next, hc]
      omega

theorem start_after_prefix {before text : List Char} (h : before <+: text) :
    start.after before = ofOffset text before.length := by
  obtain ⟨behind, rfl⟩ := h
  simp [start_after, ofOffset]

example : ofOffset ['a', '\n', 'b', 'c'] 3 = ⟨3, 2, 2⟩ := by decide

end Position

/-- The span of the characters of a text from one offset up to, not including, another one. -/
def Span.stretch (file : String) (text : List Char) (i j : Nat) : Span :=
  .between file (.ofOffset text i) (.ofOffset text j)

theorem Span.between_prefixes {before through text : List Char} (file : String)
    (h : before <+: text) (h' : through <+: text) :
    between file (Position.start.after before) (Position.start.after through) =
      stretch file text before.length through.length := by
  rw [Position.start_after_prefix h, Position.start_after_prefix h', stretch]

/-! ## Parts of a text -/

namespace Chunk

variable {p q : Position} {w : Word} {chunks : List Chunk}

/-- A placed word stands behind the text in front of it. -/
theorem exists_of_mem_placed {before : List Char}
    (h : (q, w) ∈ placed (Position.start.after before) chunks) :
    ∃ front, q = Position.start.after front ∧
      front ++ w.lexeme <+: before ++ chunks.flatMap text := by
  induction chunks generalizing before with
  | nil => cases h
  | cons chunk chunks ih =>
    cases chunk with
    | gap cs =>
      rw [placed, ← Position.after_append] at h
      obtain ⟨front, hq, hfront⟩ := ih h
      exact ⟨front, hq, by simpa [text] using hfront⟩
    | word v =>
      rw [placed, ← Position.after_append] at h
      obtain heq | h := List.mem_cons.1 h
      · obtain ⟨rfl, rfl⟩ := Prod.mk.inj heq
        exact ⟨before, rfl, chunks.flatMap text, by simp [text]⟩
      · obtain ⟨front, hq, hfront⟩ := ih h
        exact ⟨front, hq, by simpa [text] using hfront⟩

theorem offset_le_of_mem_placed (h : (q, w) ∈ placed p chunks) : p.offset ≤ q.offset := by
  induction chunks generalizing p with
  | nil => cases h
  | cons chunk chunks ih =>
    cases chunk with
    | gap cs =>
      have := ih h
      rw [Position.after_offset] at this
      omega
    | word v =>
      obtain heq | h := List.mem_cons.1 h
      · exact Nat.le_of_eq (congrArg (·.1.offset) heq).symm
      · have := ih h
        rw [Position.after_offset] at this
        omega

/-- Words do not overlap. -/
theorem pairwise_placed (p : Position) (chunks : List Chunk) :
    (placed p chunks).Pairwise fun a b => a.1.offset + a.2.lexeme.length ≤ b.1.offset := by
  induction chunks generalizing p with
  | nil => exact .nil
  | cons chunk chunks ih =>
    cases chunk with
    | gap cs => exact ih _
    | word w =>
      refine .cons (fun b hb => ?_) (ih _)
      rw [← Position.after_offset]
      exact offset_le_of_mem_placed hb

end Chunk

/-! ## Gaps -/

/-- A comment fills the offsets from `i` up to, not including, `j`: it begins with two slashes and
reaches to the next line feed, or to the end of the text. -/
structure IsComment (text : List Char) (i j : Nat) : Prop where
  slashes : text[i]? = some '/' ∧ text[i + 1]? = some '/'
  inside : ∀ k, i ≤ k → k < j → text[k]? ≠ some '\n'
  ends : text[j]? = some '\n' ∨ j = text.length

theorem isComment_of_drop {text body behind : List Char} {i : Nat}
    (htext : text.drop i = '/' :: '/' :: body ++ behind) (hinside : '\n' ∉ body)
    (hends : ∀ c ∈ behind.head?, c = '\n') :
    IsComment text i (i + ('/' :: '/' :: body).length) := by
  have hget (k : Nat) : text[i + k]? = ('/' :: '/' :: body ++ behind)[k]? := by
    rw [← htext, List.getElem?_drop]
  refine ⟨⟨hget 0, hget 1⟩, fun k hik hkj => ?_, ?_⟩
  · obtain ⟨k, rfl⟩ : ∃ n, k = i + n := ⟨k - i, by omega⟩
    have hk : k < ('/' :: '/' :: body).length := by omega
    rw [hget, List.getElem?_append_left hk]
    intro heq
    have hmem : '\n' ∈ '/' :: '/' :: body := List.mem_of_getElem? heq
    simp [hinside] at hmem
  · rw [hget, List.getElem?_append_right (Nat.le_refl _), Nat.sub_self]
    cases behind with
    | nil =>
      have hlength := congrArg List.length htext
      simp only [List.length_drop, List.append_nil, List.length_cons] at hlength
      exact .inr (by simp only [List.length_cons]; omega)
    | cons c tail => exact .inl (by simp [hends c rfl])

/-- The offset does not belong to any of the placed words. -/
def Apart (words : List (Position × Word)) (k : Nat) : Prop :=
  ∀ x ∈ words, k < x.1.offset ∨ x.1.offset + x.2.lexeme.length ≤ k

/-- Behind a part of a text, only the words behind that part matter. -/
theorem apart_placed_cons {p : Position} {chunk : Chunk} {k : Nat}
    (hk : (p.after chunk.text).offset ≤ k) (chunks : List Chunk) :
    Apart (Chunk.placed p (chunk :: chunks)) k ↔
      Apart (Chunk.placed (p.after chunk.text) chunks) k := by
  cases chunk with
  | gap cs => exact Iff.rfl
  | word w =>
    rw [Position.after_offset] at hk
    exact ⟨fun h => (List.forall_mem_cons.1 h).2, fun h => List.forall_mem_cons.2 ⟨.inr hk, h⟩⟩

theorem drop_after {text front behind : List Char} {p : Position}
    (h : text.drop p.offset = front ++ behind) : text.drop (p.after front).offset = behind := by
  rw [Position.after_offset, ← List.drop_drop, h, List.drop_left]

/-- What stands at an offset that belongs to no word: a blank, or a part of a comment of which no
part belongs to any word. -/
theorem gap_of_apart {text cs : List Char} {p : Position} (htext : text.drop p.offset = cs)
    {k : Nat} (hpk : p.offset ≤ k) (hk : k < text.length)
    (h : Apart (Chunk.placed p (Chunk.ofSource cs)) k) :
    (∃ c ∈ Lexical.blanks, text[k]? = some c) ∨
    ∃ i j, p.offset ≤ i ∧ i ≤ k ∧ k < j ∧ IsComment text i j ∧
      ∀ m, i ≤ m → m < j → Apart (Chunk.placed p (Chunk.ofSource cs)) m := by
  fun_induction Chunk.ofSource cs generalizing p with
  | case1 =>
    have := List.drop_eq_nil_iff.1 htext
    omega
  | case2 c rest ih =>
    have hbehind := drop_after (htext.trans (Chunk.read_append c rest).symm)
    by_cases hbeyond : (p.after (Chunk.read c rest).1.text).offset ≤ k
    · obtain hblank | ⟨i, j, hi, hik, hkj, hcomment, hapart⟩ :=
        ih hbehind hbeyond ((apart_placed_cons hbeyond _).1 h)
      · exact .inl hblank
      · refine .inr ⟨i, j, ?_, hik, hkj, hcomment, fun m him hmj => ?_⟩
        · rw [Position.after_offset] at hi
          omega
        · exact (apart_placed_cons (Nat.le_trans hi him) _).2 (hapart m him hmj)
    · rw [Position.after_offset] at hbeyond
      obtain ⟨hspace, hread⟩ | ⟨body, behind, rfl, rfl, hinside, hends, hread⟩ | ⟨-, -, hread⟩ :=
        Chunk.read_cases c rest
      · refine .inl ⟨c, Lexical.isSpace_iff.1 hspace, ?_⟩
        have hfirst : k = p.offset := by
          simp only [hread, Chunk.text, List.length_singleton] at hbeyond
          omega
        have hget := congrArg (·[0]?) htext
        simpa [hfirst] using hget
      · rw [hread] at hbeyond ⊢
        refine .inr ⟨_, _, Nat.le_refl _, hpk, by simpa [Chunk.text] using hbeyond,
          isComment_of_drop htext hinside hends, fun m _ hmj x hx => .inl ?_⟩
        have := Chunk.offset_le_of_mem_placed (p := p.after _) hx
        rw [Position.after_offset] at this
        omega
      · rw [hread] at h hbeyond
        have hword := h _ List.mem_cons_self
        simp only [Chunk.text] at hbeyond hword
        omega

/-! ## Tokens -/

/-- Whether an offset belongs to a token. -/
def Token.Covers (t : Token) (k : Nat) : Prop := t.span.start ≤ k ∧ k < t.span.stop

section Tokens

variable (source file : String)

/-- The words of a source text, each with its place. -/
def placedWords : List (Position × Word) := Chunk.placed .start (Chunk.ofSource source.toList)

theorem ahead_lex : (lex source file).stream.ahead =
    (placedWords source).map fun x => x.2.toToken file x.1 := rfl

theorem diagnostics_lex_placed : (lex source file).diagnostics =
    (placedWords source).flatMap fun x => x.2.diagnostics file x.1 := rfl

variable {source file} {p : Position} {w : Word}

theorem mem_wordsOf_of_placed (h : (p, w) ∈ placedWords source) : w ∈ wordsOf source.toList := by
  rw [wordsOf, ← Chunk.snd_placed .start]
  exact List.mem_map_of_mem (f := Prod.snd) h

theorem length_lexeme_pos (h : (p, w) ∈ placedWords source) : 0 < w.lexeme.length := by
  obtain ⟨c, rest, rfl⟩ := exists_read_of_mem_wordsOf (mem_wordsOf_of_placed h)
  exact List.length_pos_iff.2 (Word.lexeme_read_ne_nil c rest)

/-- A word stands behind the text in front of it. -/
theorem exists_front (h : (p, w) ∈ placedWords source) :
    ∃ front, p = Position.start.after front ∧ front ++ w.lexeme <+: source.toList := by
  have hplaced : (p, w) ∈ Chunk.placed (Position.start.after []) (Chunk.ofSource source.toList) := h
  obtain ⟨front, hp, hprefix⟩ := Chunk.exists_of_mem_placed hplaced
  rw [List.nil_append, Chunk.texts_ofSource] at hprefix
  exact ⟨front, hp, hprefix⟩

theorem stretch_of_mem (h : (p, w) ∈ placedWords source) :
    ∃ i j, i < j ∧ j ≤ source.toList.length ∧
      (w.toToken file p).span = .stretch file source.toList i j ∧
      (w.toToken file p).lexeme.toList = (source.toList.take j).drop i := by
  obtain ⟨front, rfl, hprefix⟩ := exists_front h
  have hfront : front <+: source.toList := (List.prefix_append front w.lexeme).trans hprefix
  have hpos := length_lexeme_pos h
  refine ⟨front.length, (front ++ w.lexeme).length, ?_, hprefix.length_le, ?_, ?_⟩
  · simp only [List.length_append]
    omega
  · rw [← Span.between_prefixes file hfront hprefix, Position.after_append]
    rfl
  · rw [← List.prefix_iff_eq_take.1 hprefix, List.drop_left]
    exact String.toList_ofList

/-- What there is to report about a word is about a stretch of it. -/
theorem stretch_of_mem_diagnostics (h : (p, w) ∈ placedWords source) {d : Diagnostic}
    (hd : d ∈ w.diagnostics file p) :
    ∃ i j, i ≤ j ∧ j ≤ source.toList.length ∧ d.span = some (.stretch file source.toList i j) := by
  obtain ⟨flaw, -, rfl⟩ := List.mem_map.1 hd
  obtain ⟨front, rfl, hprefix⟩ := exists_front h
  have hpart (n : Nat) : front ++ w.lexeme.take n <+: source.toList :=
    ((List.prefix_append_right_inj front).2 (List.take_prefix n w.lexeme)).trans hprefix
  refine ⟨(front ++ w.lexeme.take flaw.skip).length,
    (front ++ w.lexeme.take (flaw.skip + flaw.width)).length, ?_, (hpart _).length_le, ?_⟩
  · simp only [List.length_append, List.length_take]
    omega
  · rw [← Span.between_prefixes file (hpart _) (hpart _), Position.after_append,
      Position.after_append]
    rfl

theorem covers_toToken {k : Nat} :
    (w.toToken file p).Covers k ↔ ¬(k < p.offset ∨ p.offset + w.lexeme.length ≤ k) := by
  simp only [Token.Covers, Word.toToken, Span.between, Position.after_offset]
  omega

/-- No word holds an offset exactly if no token does; the end of the text holds none. -/
theorem apart_placedWords {k : Nat} :
    Apart (placedWords source) k ↔ ∀ t ∈ (lex source file).tokens, ¬t.Covers k := by
  have hlast : ¬(lex source file).stream.last.Covers k := by
    simp only [Token.Covers, lex, Token.endOf, Span.between]
    omega
  have htokens : (lex source file).tokens =
      (placedWords source).map (fun x => x.2.toToken file x.1) ++
        [(lex source file).stream.last] := rfl
  rw [htokens, List.forall_mem_append, List.forall_mem_map, List.forall_mem_singleton,
    and_iff_left hlast]
  exact forall₂_congr fun x _ => by rw [covers_toToken, not_not]

/-- Tokens stand one behind the other, all of them in front of the end. -/
theorem pairwise_tokens : (lex source file).tokens.Pairwise fun t u =>
    t.span.start < u.span.start ∧ t.span.stop ≤ u.span.start := by
  have hwords (x : Position × Word) (hx : x ∈ placedWords source) {u : Token}
      (hu : (x.1.offset + x.2.lexeme.length : Nat) ≤ u.span.start) :
      (x.2.toToken file x.1).span.start < u.span.start ∧
        (x.2.toToken file x.1).span.stop ≤ u.span.start := by
    have hpos := length_lexeme_pos hx
    simp only [Word.toToken, Span.between, Position.after_offset]
    omega
  refine List.pairwise_append.2 ⟨List.pairwise_map.2 ?_, List.pairwise_singleton _ _, ?_⟩
  · refine (Chunk.pairwise_placed .start _).imp_of_mem fun {x y} hx _ hxy => hwords x hx ?_
    exact Int.ofNat_le.2 hxy
  · intro t ht u hu
    obtain ⟨x, hx, rfl⟩ := List.mem_map.1 ht
    obtain rfl := List.mem_singleton.1 hu
    obtain ⟨front, hp, hprefix⟩ := exists_front hx
    have hlength := hprefix.length_le
    refine hwords x hx (Int.ofNat_le.2 ?_)
    rw [hp, Position.after_offset, Position.after_offset]
    simpa [Position.start] using hlength

end Tokens

/-- The tokens of a source text tile it. Only the last one marks the end of the text, where it has
an empty span. Every other one is a stretch of the text, with its characters as the lexeme. They
stand one behind the other, and an offset that belongs to none of them holds a blank or is part of a
comment, of which no part belongs to a token. What there is to report is about stretches as well. -/
theorem tokens_tile (source file : String) :
    let text := source.toList
    let lexed := lex source file
    lexed.stream.EndsOnce ∧
    lexed.stream.last = ⟨.eof, "", .stretch file text text.length text.length, .null⟩ ∧
    (∀ t ∈ lexed.stream.ahead, ∃ i j, i < j ∧ j ≤ text.length ∧
      t.span = .stretch file text i j ∧ t.lexeme.toList = (text.take j).drop i) ∧
    lexed.tokens.Pairwise (fun t u =>
      t.span.start < u.span.start ∧ t.span.stop ≤ u.span.start) ∧
    (∀ k < text.length, (∀ t ∈ lexed.tokens, ¬t.Covers k) →
      (∃ c ∈ Lexical.blanks, text[k]? = some c) ∨
      ∃ i j, i ≤ k ∧ k < j ∧ IsComment text i j ∧
        ∀ m, i ≤ m → m < j → ∀ t ∈ lexed.tokens, ¬t.Covers m) ∧
    ∀ d ∈ lexed.diagnostics, ∃ i j, i ≤ j ∧ j ≤ text.length ∧
      d.span = some (.stretch file text i j) := by
  intro text lexed
  have hahead : lexed.stream.ahead = (placedWords source).map fun x => x.2.toToken file x.1 := rfl
  have hend : lexed.stream.last.span = .stretch file text text.length text.length := by
    rw [← Span.between_prefixes file (List.prefix_rfl) (List.prefix_rfl)]
    rfl
  refine ⟨fun t ht => (placed_of_mem_lex ht).notEnd, ?_, ?_, ?_, ?_, ?_⟩
  · rw [← hend]
    rfl
  · rintro t ht
    rw [hahead] at ht
    obtain ⟨⟨p, w⟩, hmem, rfl⟩ := List.mem_map.1 ht
    exact stretch_of_mem hmem
  · exact pairwise_tokens
  · intro k hk hnone
    obtain hblank | ⟨i, j, -, hik, hkj, hcomment, hapart⟩ :=
      gap_of_apart (p := .start) rfl (Nat.zero_le k) hk (apart_placedWords.2 hnone)
    · exact .inl hblank
    · exact .inr ⟨i, j, hik, hkj, hcomment, fun m him hmj => apart_placedWords.1 (hapart m him hmj)⟩
  · intro d hd
    obtain ⟨⟨p, w⟩, hmem, hd⟩ := List.mem_flatMap.1 hd
    exact stretch_of_mem_diagnostics hmem hd

end RuleLang
