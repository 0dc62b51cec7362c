import RuleLang.Proofs.Token.Spacing
import RuleLang.Proofs.Token.Tiling

/-!
Pieces of a source text. What a part of a text is depends on its own characters and on the one
behind it: the part is read again in front of any text that begins as what followed it, or with a
line feed (`read_again`), and so in front of any beginning of what followed it (`read_cut`). Hence
the parts of a piece that begins and ends between two parts of a text are those that it is made of
(`ofSource_piece`), and the tokens of the piece from one token through another one are these and
those between them (`words_piece`).
-/
namespace RuleLang

/-! ## Words -/

section Prefixes

variable {α : Type} {p : α → Bool} {cs front behind : List α}

theorem mem_head?_of_front (h : front <+: cs) : ∀ c ∈ front.head?, c ∈ cs.head? := by
  obtain ⟨tail, rfl⟩ := h
  cases front with
  | nil => intro c hc; cases hc
  | cons d front => exact fun c hc => hc

theorem takeWhile_again (cs : List α) (h : ∀ c ∈ behind.head?, p c = false) :
    (cs.takeWhile p ++ behind).takeWhile p = cs.takeWhile p ∧
      (cs.takeWhile p ++ behind).dropWhile p = behind :=
  takeWhile_append_of_stop (List.all_eq_true.1 List.all_takeWhile) h

end Prefixes

/-- The text begins as the other one does, or with a line feed, if it is not empty. -/
def BeginsAs (behind tail : List Char) : Prop := ∀ c ∈ behind.head?, c ∈ tail.head? ∨ c = '\n'

section BeginsAs

variable {behind tail : List Char}

theorem BeginsAs.of_front (h : behind <+: tail) : BeginsAs behind tail :=
  fun c hc => .inl (mem_head?_of_front h c hc)

theorem beginsAs_line (tail rest : List Char) : BeginsAs (tail ++ '\n' :: rest) tail := by
  cases tail with
  | nil => exact fun c hc => .inr (Option.some.inj hc).symm
  | cons d tail => exact fun c hc => .inl hc

theorem BeginsAs.append (h : BeginsAs behind tail) (front : List Char) :
    BeginsAs (front ++ behind) (front ++ tail) := by
  cases front with
  | nil => exact h
  | cons d front => exact fun c hc => .inl hc

theorem BeginsAs.of_dropWhile {p : Char → Bool} {cs : List Char} (hp : p '\n' = false)
    (h : BeginsAs behind (cs.dropWhile p)) : ∀ c ∈ behind.head?, p c = false := by
  intro c hc
  obtain hc | rfl := h c hc
  · have hnot := List.head?_dropWhile_not p cs
    rwa [Option.mem_def.1 hc] at hnot
  · exact hp

end BeginsAs

namespace Word

variable {c : Char} {text rest rest' behind : List Char}

/-- The text is a string without its closing quote. -/
def IsOpen (c : Char) (rest : List Char) : Prop :=
  c = '"' ∧ ∀ ps more, StringPiece.readMany rest ≠ (ps, '"' :: more)

theorem read_of_isOpen (h : IsOpen c rest) : (read c rest).2 = [] ∧
    (read c rest).1.flaws.getLast? = some ⟨.unterminatedString, 0, rest.length + 1⟩ := by
  obtain ⟨rfl, hopen⟩ := h
  rw [read, if_pos rfl, readString]
  split
  · rename_i heq
    exact absurd heq (hopen _ _)
  · exact ⟨rfl, List.getLast?_concat⟩

theorem readName_again (h : BeginsAs behind (readName text).2) :
    readName ((readName text).1.lexeme ++ behind) = ((readName text).1, behind) := by
  have hlexeme : (readName text).1.lexeme = text.takeWhile isNamePart := lexeme_ofName _
  obtain ⟨htake, hdrop⟩ := takeWhile_again text (h.of_dropWhile (by decide))
  rw [hlexeme, readName, htake, hdrop]
  rfl

theorem readNumber_of_point {more : List Char} (h : text.dropWhile Char.isDigit = '.' :: more) :
    readNumber text =
      if more.takeWhile Char.isDigit = [] then
        (invalid (text.takeWhile Char.isDigit ++ ['.'])
          (.malformedNumber (String.ofList (text.takeWhile Char.isDigit ++ ['.']))), more)
      else (ofDecimal (text.takeWhile Char.isDigit) (more.takeWhile Char.isDigit),
        more.dropWhile Char.isDigit) := by
  simp only [readNumber, h, List.isEmpty_iff]

theorem readNumber_of_ne_point (h : ∀ more, text.dropWhile Char.isDigit ≠ '.' :: more) :
    readNumber text =
      (ofInteger (text.takeWhile Char.isDigit), text.dropWhile Char.isDigit) := by
  unfold readNumber
  split
  · rename_i more hmore
    exact absurd hmore (h more)
  · rfl

theorem readNumber_again (h : BeginsAs behind (readNumber text).2) :
    readNumber ((readNumber text).1.lexeme ++ behind) = ((readNumber text).1, behind) := by
  have hwhole : ∀ c ∈ text.takeWhile Char.isDigit, c.isDigit = true :=
    List.all_eq_true.1 List.all_takeWhile
  by_cases hpoint : ∃ more, text.dropWhile Char.isDigit = '.' :: more
  · obtain ⟨more, hmore⟩ := hpoint
    have hagain (tail : List Char) :
        (text.takeWhile Char.isDigit ++ '.' :: tail).takeWhile Char.isDigit =
            text.takeWhile Char.isDigit ∧
          (text.takeWhile Char.isDigit ++ '.' :: tail).dropWhile Char.isDigit = '.' :: tail := by
      rw [List.takeWhile_append_of_pos hwhole, List.dropWhile_append_of_pos hwhole]
      exact ⟨List.append_nil _, rfl⟩
    rw [readNumber_of_point hmore] at h ⊢
    by_cases hnone : more.takeWhile Char.isDigit = []
    · have hmore : more.dropWhile Char.isDigit = more := by
        have hsplit := List.takeWhile_append_dropWhile (p := Char.isDigit) (l := more)
        rwa [hnone, List.nil_append] at hsplit
      rw [if_pos hnone] at h ⊢
      obtain ⟨htake, -⟩ :=
        takeWhile_again more ((hmore.symm ▸ h : BeginsAs _ _).of_dropWhile rfl)
      rw [hnone, List.nil_append] at htake
      rw [lexeme_invalid, List.append_assoc, List.singleton_append,
        readNumber_of_point (hagain behind).2, (hagain behind).1, if_pos htake]
    · rw [if_neg hnone] at h ⊢
      obtain ⟨htake, hdrop⟩ := takeWhile_again more (h.of_dropWhile rfl)
      rw [lexeme_ofDecimal, List.append_assoc, List.cons_append,
        readNumber_of_point (hagain _).2, (hagain _).1, htake, hdrop, if_neg hnone]
  · have hpoint : ∀ more, text.dropWhile Char.isDigit ≠ '.' :: more := by simpa using hpoint
    rw [readNumber_of_ne_point hpoint] at h ⊢
    obtain ⟨htake, hdrop⟩ := takeWhile_again text (h.of_dropWhile rfl)
    have hagain : ∀ more, behind ≠ '.' :: more := by
      rintro more rfl
      obtain hhead | hhead := h '.' rfl
      · obtain ⟨tail, htail⟩ := List.head?_eq_some_iff.1 hhead
        exact hpoint _ htail
      · cases hhead
    rw [lexeme_ofInteger, readNumber_of_ne_point (by rwa [hdrop]), htake, hdrop]

theorem readString_again {body body' : List Char}
    (hbody : '"' :: body' = (readString body).1.lexeme ++ behind)
    (hopen : IsOpen '"' body → behind = []) : readString body' = ((readString body).1, behind) := by
  by_cases hclosed : ∃ ps more, StringPiece.readMany body = (ps, '"' :: more)
  · obtain ⟨ps, more, hread⟩ := hclosed
    rw [readString_closed hread] at hbody ⊢
    have hrest : body' = ps.flatMap StringPiece.written ++ '"' :: behind := by
      simpa using hbody
    rw [hrest, readString_closed (StringPiece.readMany_written hread behind)]
  · -- an open string is all of its text
    have hisOpen : IsOpen '"' body := ⟨rfl, fun ps more h => hclosed ⟨ps, more, h⟩⟩
    obtain rfl := hopen hisOpen
    have hend : (readString body).2 = [] := (read_of_isOpen hisOpen).1
    have hwhole := readString_append body
    rw [hend, ← hbody] at hwhole
    obtain rfl : body' = body := (List.cons_eq_cons.1 hwhole).2
    exact Prod.ext rfl hend

/-- Where it begins no longer mark, a character is a word on its own, whatever follows it. -/
theorem readMark_single (c : Char) : ∃ w : Word, w.lexeme = [c] ∧ ∀ rest : List Char,
    (rest.head?.bind fun d => Token.Kind.doubles.lookup (c, d)) = none →
      readMark c rest = (w, rest) := by
  cases hsingle : Token.Kind.singles.lookup c with
  | some kind =>
    exact ⟨⟨kind, [c], .null, []⟩, rfl, fun rest h => by simp only [readMark, h, hsingle]⟩
  | none =>
    exact ⟨invalid [c] (.unexpectedCharacter c), rfl, fun rest h => by
      simp only [readMark, h, hsingle]⟩

theorem readMark_again (hrest : c :: rest' = (readMark c rest).1.lexeme ++ behind)
    (h : BeginsAs behind (readMark c rest).2) :
    readMark c rest' = ((readMark c rest).1, behind) := by
  cases hdouble : rest.head?.bind fun d => Token.Kind.doubles.lookup (c, d) with
  | some kind =>
    obtain ⟨d, hd, hkind⟩ := Option.bind_eq_some_iff.1 hdouble
    obtain ⟨more, rfl⟩ := List.head?_eq_some_iff.1 hd
    simp only [readMark, hdouble] at hrest ⊢
    obtain rfl : rest' = d :: behind := (List.cons_eq_cons.1 hrest).2
    simp only [List.head?_cons, Option.bind_some, hkind]
    rfl
  | none =>
    obtain ⟨w, hlexeme, hread⟩ := readMark_single c
    rw [hread rest hdouble] at hrest h ⊢
    obtain rfl : rest' = behind := by simpa [hlexeme] using hrest
    refine hread rest' ?_
    cases hhead : rest'.head? with
    | none => rfl
    | some d =>
      obtain hd | rfl := h d hhead
      · rw [Option.mem_def.1 hd] at hdouble
        exact hdouble
      · exact lookup_doubles_of_ne (by decide) c

/-- A word is read again in front of any text that begins as what followed it, or with a line feed.
Only an open string has to reach to the end of the text. -/
theorem read_again (hrest : c :: rest' = (read c rest).1.lexeme ++ behind)
    (h : BeginsAs behind (read c rest).2) (hopen : IsOpen c rest → behind = []) :
    read c rest' = ((read c rest).1, behind) := by
  unfold read at hrest h ⊢
  split at hrest
  · rename_i hquote
    subst hquote
    exact readString_again hrest hopen
  · rename_i hquote
    rw [if_neg hquote] at h
    rw [if_neg hquote, if_neg hquote]
    split at hrest
    · rename_i hdigit
      rw [if_pos hdigit] at h
      rw [if_pos hdigit, if_pos hdigit, hrest]
      exact readNumber_again h
    · rename_i hdigit
      rw [if_neg hdigit] at h
      rw [if_neg hdigit, if_neg hdigit]
      split at hrest
      · rename_i hname
        rw [if_pos hname] at h
        rw [if_pos hname, if_pos hname, hrest]
        exact readName_again h
      · rename_i hname
        rw [if_neg hname] at h
        rw [if_neg hname, if_neg hname]
        exact readMark_again hrest h

end Word

/-! ## Parts of texts -/

namespace Chunk

/-- A part of a text is read again in front of any text that begins as what followed it, or with a
line feed. -/
theorem read_again {c : Char} {rest rest' behind : List Char}
    (hrest : c :: rest' = (read c rest).1.text ++ behind) (h : BeginsAs behind (read c rest).2)
    (hopen : Word.IsOpen c rest → behind = []) :
    read c rest' = ((read c rest).1, behind) := by
  obtain ⟨hspace, hread⟩ | ⟨body, tail, rfl, rfl, hinside, hends, hread⟩ |
    ⟨hspace, hcomment, hread⟩ := read_cases c rest
  · rw [hread] at hrest ⊢
    obtain rfl : rest' = behind := (List.cons_eq_cons.1 hrest).2
    rw [read, if_pos hspace]
  · rw [hread] at hrest h ⊢
    obtain rfl : rest' = '/' :: body ++ behind := (List.cons_eq_cons.1 hrest).2
    exact Lexical.read_comment hinside fun d hd => (h d hd).elim (hends d) id
  · have happend := read_append c rest
    rw [hread] at hrest h happend ⊢
    have hbegins : BeginsAs rest' rest := by
      obtain ⟨d, more, hlexeme⟩ := List.exists_cons_of_ne_nil (Word.lexeme_read_ne_nil c rest)
      simp only [text, hlexeme, List.cons_append] at hrest happend
      rw [(List.cons_eq_cons.1 hrest).2, ← (List.cons_eq_cons.1 happend).2]
      exact h.append more
    have hagain : startsComment c rest' = false := by
      refine Bool.eq_false_iff.2 fun hstarts => Bool.eq_false_iff.1 hcomment ?_
      simp only [startsComment, Bool.and_eq_true, decide_eq_true_eq] at hstarts ⊢
      obtain hhead | hhead := hbegins _ hstarts.2
      · exact ⟨hstarts.1, hhead⟩
      · cases hhead
    rw [read, if_neg (Bool.eq_false_iff.1 hspace), if_neg (Bool.eq_false_iff.1 hagain),
      Word.read_again hrest h hopen]

theorem read_of_isOpen {c : Char} {rest : List Char} (h : Word.IsOpen c rest) :
    read c rest = (.word (Word.read c rest).1, (Word.read c rest).2) := by
  obtain ⟨rfl, -⟩ := h
  rfl

/-- A part of a text is read again in front of any beginning of what followed it. -/
theorem read_cut {c : Char} {rest rest' behind : List Char}
    (hrest : c :: rest' = (read c rest).1.text ++ behind) (h : behind <+: (read c rest).2) :
    read c rest' = ((read c rest).1, behind) := by
  refine read_again hrest (.of_front h) fun hopen => ?_
  rw [read_of_isOpen hopen, (Word.read_of_isOpen hopen).1] at h
  exact List.prefix_nil.1 h

/-- The parts of what is left behind the first parts of a text. -/
theorem ofSource_behind {cs : List Char} {front behind : List Chunk}
    (h : ofSource cs = front ++ behind) : ofSource (behind.flatMap text) = behind := by
  induction front generalizing cs with
  | nil =>
    rw [List.nil_append] at h
    rw [← h, texts_ofSource]
  | cons chunk front ih =>
    cases cs with
    | nil => simp at h
    | cons c rest =>
      rw [ofSource_cons, List.cons_append] at h
      exact ih (List.cons_eq_cons.1 h).2

/-- The first parts of a text are those of their own characters. -/
theorem ofSource_front {cs : List Char} {front behind : List Chunk}
    (h : ofSource cs = front ++ behind) : ofSource (front.flatMap text) = front := by
  induction front generalizing cs with
  | nil => simp
  | cons chunk front ih =>
    cases cs with
    | nil => simp at h
    | cons c rest =>
      rw [ofSource_cons, List.cons_append] at h
      obtain ⟨rfl, hmore⟩ := List.cons_eq_cons.1 h
      have hagain := ih hmore
      have hfront : front.flatMap text <+: (read c rest).2 := by
        refine ⟨behind.flatMap text, ?_⟩
        rw [← List.flatMap_append, ← hmore, texts_ofSource]
      rw [List.flatMap_cons]
      cases htext : (read c rest).1.text with
      | nil => exact absurd htext (text_read_ne_nil c rest)
      | cons d tail =>
        have happend := read_append c rest
        rw [htext] at happend
        obtain rfl := (List.cons_eq_cons.1 happend).1
        rw [List.cons_append, ofSource_cons, read_cut (by rw [htext]; rfl) hfront, hagain]

/-- The parts of a piece that begins and ends between two parts of a text. -/
theorem ofSource_piece {cs : List Char} {front piece behind : List Chunk}
    (h : ofSource cs = front ++ (piece ++ behind)) : ofSource (piece.flatMap text) = piece :=
  ofSource_front (ofSource_behind h)

section Placed

variable {p : Position} {chunks : List Chunk} {x : Position × Word}
  {before us post : List (Position × Word)}

/-- A placed word begins where the parts in front of it end. -/
theorem exists_front_of_placed (h : placed p chunks = before ++ x :: us) :
    ∃ front behind, chunks = front ++ behind ∧ p.after (front.flatMap text) = x.1 ∧
      placed x.1 behind = x :: us := by
  induction chunks generalizing p before with
  | nil => simp [placed] at h
  | cons chunk chunks ih =>
    cases chunk with
    | gap cs =>
      obtain ⟨front, behind, rfl, hplace, hbehind⟩ := ih h
      exact ⟨.gap cs :: front, behind, rfl, (Position.after_append ..).trans hplace, hbehind⟩
    | word w =>
      cases before with
      | nil =>
        obtain ⟨rfl, -⟩ := List.cons_eq_cons.1 h
        exact ⟨[], .word w :: chunks, rfl, by simp, h⟩
      | cons y before =>
        obtain ⟨front, behind, rfl, hplace, hbehind⟩ := ih (List.cons_eq_cons.1 h).2
        exact ⟨.word w :: front, behind, rfl, (Position.after_append ..).trans hplace, hbehind⟩

/-- The parts through a placed word end where it does. -/
theorem exists_behind_of_placed (h : placed p chunks = us ++ [x] ++ post) :
    ∃ front behind, chunks = front ++ behind ∧ placed p front = us ++ [x] ∧
      p.after (front.flatMap text) = x.1.after x.2.lexeme := by
  induction chunks generalizing p us with
  | nil => simp [placed] at h
  | cons chunk chunks ih =>
    cases chunk with
    | gap cs =>
      obtain ⟨front, behind, rfl, hfront, hplace⟩ := ih h
      exact ⟨.gap cs :: front, behind, rfl, hfront, (Position.after_append ..).trans hplace⟩
    | word w =>
      cases us with
      | nil =>
        obtain ⟨rfl, -⟩ := List.cons_eq_cons.1 h
        exact ⟨[.word w], chunks, rfl, rfl, by simp [text]⟩
      | cons y us =>
        obtain ⟨rfl, hmore⟩ := List.cons_eq_cons.1 h
        obtain ⟨front, behind, rfl, hfront, hplace⟩ := ih hmore
        exact ⟨.word w :: front, behind, rfl, congrArg _ hfront,
          (Position.after_append ..).trans hplace⟩

end Placed

end Chunk

/-! ## Tokens -/

/-- The characters of a text that a span holds. -/
def Span.slice (source : String) (s : Span) : String :=
  .ofList ((source.toList.take s.stop.toNat).drop s.start.toNat)

section Tokens

variable {source file : String} {pre us post : List Token} {first last : Token}
  (h : (lex source file).stream.ahead = pre ++ us ++ post)
  (hfirst : first ∈ us.head?) (hlast : last ∈ us.getLast?)
include h hfirst hlast

/-- The parts of a text from one token through another one. -/
theorem exists_piece : ∃ front piece behind p,
    Chunk.ofSource source.toList = front ++ (piece ++ behind) ∧
    (Chunk.placed p piece).map (fun x => x.2.toToken file x.1) = us ∧
    first.span.start = (front.flatMap Chunk.text).length ∧
    last.span.stop =
      ((front.flatMap Chunk.text).length + (piece.flatMap Chunk.text).length : Nat) := by
  have hplaced : (placedWords source).map (fun x => x.2.toToken file x.1) = pre ++ us ++ post := h
  obtain ⟨_, qs, hsplit, hmap, -⟩ := List.map_eq_append_iff.1 hplaced
  obtain ⟨ps, xs, rfl, -, hxs⟩ := List.map_eq_append_iff.1 hmap
  obtain ⟨tail, hhead⟩ := List.head?_eq_some_iff.1 hfirst
  obtain ⟨init, hend⟩ := List.getLast?_eq_some_iff.1 hlast
  obtain ⟨x, more, hx, hxfirst, -⟩ := List.map_eq_cons_iff.1 (hxs.trans hhead)
  obtain ⟨ys, zs, hy, -, hzs⟩ := List.map_eq_append_iff.1 (hxs.trans hend)
  obtain ⟨y, rfl, hylast⟩ := List.map_eq_singleton_iff.1 hzs
  have hcut : Chunk.placed .start (Chunk.ofSource source.toList) = ps ++ x :: (more ++ qs) := by
    rw [hx] at hsplit
    simpa [placedWords] using hsplit
  obtain ⟨front, rest, hchunks, hplace, hrest⟩ := Chunk.exists_front_of_placed hcut
  have hmore : Chunk.placed x.1 rest = ys ++ [y] ++ qs := by
    rw [hrest, ← hy, hx, List.cons_append]
  obtain ⟨piece, behind, rfl, hpiece, hthrough⟩ := Chunk.exists_behind_of_placed hmore
  refine ⟨front, piece, behind, x.1, hchunks, by rw [hpiece, ← hy, hxs], ?_, ?_⟩
  · rw [← hxfirst, Word.toToken, Span.between, ← hplace, Position.after_offset]
    simp [Position.start]
  · rw [← hylast, Word.toToken, Span.between, ← hthrough, Position.after_offset, ← hplace,
      Position.after_offset]
    simp [Position.start]

/-- The words of the text from one token through another one are those tokens and the ones between
them. -/
theorem words_slice {span : Span} (hstart : span.start = first.span.start)
    (hstop : span.stop = last.span.stop) :
    (wordsOf (span.slice source).toList).map Word.flawless = us.map Token.word := by
  obtain ⟨front, piece, behind, p, hchunks, rfl, hfirst, hlast⟩ := exists_piece h hfirst hlast
  have htext : source.toList = front.flatMap Chunk.text ++
      (piece.flatMap Chunk.text ++ behind.flatMap Chunk.text) := by
    rw [← Chunk.texts_ofSource source.toList, hchunks, List.flatMap_append, List.flatMap_append]
  have hslice : (span.slice source).toList = piece.flatMap Chunk.text := by
    rw [Span.slice, String.toList_ofList, hstart, hfirst, hstop, hlast, Int.toNat_natCast,
      Int.toNat_natCast, htext, ← List.append_assoc, ← List.length_append, List.take_left,
      List.drop_left]
  rw [hslice, wordsOf, Chunk.ofSource_piece hchunks, ← Chunk.snd_placed p, List.map_map,
    List.map_map]
  exact List.map_congr_left fun x _ => (Word.word_toToken file x.1 x.2).symm

end Tokens

end RuleLang
