import RuleLang.Node.Printer
import RuleLang.Proofs.Decimal.Shortest
import RuleLang.Token.Lexer

/-!
The words of a text. A word is read as it is written wherever nothing follows that it could go on
with (`Ends`); gaps between words leave no trace.
-/
namespace RuleLang

namespace Chunk

/-- A text up to its first line feed. -/
theorem line_spec (cs : List Char) : '\n' ∉ cs.takeWhile (· ≠ '\n') ∧
    ∀ c ∈ (cs.dropWhile (· ≠ '\n')).head?, c = '\n' := by
  constructor
  · intro h
    have hall := List.all_eq_true.1 (List.all_takeWhile (p := fun c : Char => c ≠ '\n') (l := cs))
    simpa using hall _ h
  · intro c hc
    have hnot := List.head?_dropWhile_not (fun c : Char => c ≠ '\n') cs
    rw [Option.mem_def.1 hc] at hnot
    simpa using hnot

/-- What the next part of a text may be: a blank, a comment up to the end of its line, or a word. -/
theorem read_cases (c : Char) (rest : List Char) :
    (isSpace c = true ∧ read c rest = (.gap [c], rest)) ∨
    (∃ body behind, c = '/' ∧ rest = '/' :: (body ++ behind) ∧ '\n' ∉ body ∧
      (∀ d ∈ behind.head?, d = '\n') ∧ read c rest = (.gap ('/' :: '/' :: body), behind)) ∨
    (isSpace c = false ∧ startsComment c rest = false ∧
      read c rest = (.word (Word.read c rest).1, (Word.read c rest).2)) := by
  unfold read
  cases hspace : isSpace c with
  | true => exact .inl ⟨rfl, rfl⟩
  | false =>
    cases hcomment : startsComment c rest with
    | false => exact .inr (.inr ⟨rfl, rfl, rfl⟩)
    | true =>
      obtain ⟨rfl, hhead⟩ : c = '/' ∧ rest.head? = some '/' := by
        simpa [startsComment] using hcomment
      obtain ⟨tail, rfl⟩ := List.head?_eq_some_iff.1 hhead
      obtain ⟨hinside, hends⟩ := line_spec tail
      refine .inr (.inl ⟨_, _, rfl, ?_, hinside, hends, rfl⟩)
      rw [List.takeWhile_append_dropWhile]

end Chunk

/-- The word that a part of a text is, if it is one. -/
def Chunk.word? : Chunk → Option Word
  | .gap _ => none
  | .word w => some w

/-- The words of a text. -/
def wordsOf (cs : List Char) : List Word := (Chunk.ofSource cs).filterMap Chunk.word?

/-- A token apart from its place. -/
def Token.word (t : Token) : Word := ⟨t.kind, t.lexeme.toList, t.value, []⟩

@[simp] theorem wordsOf_nil : wordsOf [] = [] := by
  simp [wordsOf]

theorem wordsOf_space {c : Char} (h : Chunk.isSpace c = true) (cs : List Char) :
    wordsOf (c :: cs) = wordsOf cs := by
  have hread : Chunk.read c cs = (.gap [c], cs) := by simp [Chunk.read, h]
  rw [wordsOf, Chunk.ofSource_cons, hread]
  rfl

theorem wordsOf_cons {c : Char} {cs rest : List Char} {w : Word} (hspace : Chunk.isSpace c = false)
    (hcomment : Chunk.startsComment c cs = false) (h : Word.read c cs = (w, rest)) :
    wordsOf (c :: cs) = w :: wordsOf rest := by
  have hread : Chunk.read c cs = (.word w, rest) := by
    simp [Chunk.read, hspace, hcomment, h]
  rw [wordsOf, Chunk.ofSource_cons, hread]
  rfl

/-- A word of a text is read somewhere in it. -/
theorem exists_read_of_mem_wordsOf {cs : List Char} {w : Word} (h : w ∈ wordsOf cs) :
    ∃ c rest, w = (Word.read c rest).1 := by
  unfold wordsOf at h
  fun_induction Chunk.ofSource cs with
  | case1 => simp at h
  | case2 c rest ih =>
    obtain ⟨-, hread⟩ | ⟨_, _, -, -, -, -, hread⟩ | ⟨-, -, hread⟩ := Chunk.read_cases c rest
    all_goals
      rw [hread] at h ih
    · exact ih h
    · exact ih h
    · obtain rfl | h := List.mem_cons.1 h
      · exact ⟨c, rest, rfl⟩
      · exact ih h

/-- A text in front of which every word ends. -/
def Ends (rest : List Char) : Prop :=
  ∀ c ∈ rest.head?, Word.isNamePart c = false ∧ c ≠ '.' ∧ c ≠ '=' ∧ c ≠ '/'

theorem ends_nil : Ends [] := nofun

theorem ends_cons {c : Char} (h : Word.isNamePart c = false ∧ c ≠ '.' ∧ c ≠ '=' ∧ c ≠ '/')
    (rest : List Char) : Ends (c :: rest) := by
  intro d hd
  cases hd
  exact h

theorem isNamePart_of_isDigit {c : Char} (h : c.isDigit = true) : Word.isNamePart c = true := by
  simp [Word.isNamePart, h]

/-- What is taken while a property holds, in front of a text that does not begin with it. -/
theorem takeWhile_append_of_stop {α : Type} {p : α → Bool} {cs rest : List α}
    (hcs : ∀ c ∈ cs, p c = true) (hrest : ∀ c ∈ rest.head?, p c = false) :
    (cs ++ rest).takeWhile p = cs ∧ (cs ++ rest).dropWhile p = rest := by
  have hstop : rest.takeWhile p = [] ∧ rest.dropWhile p = rest := by
    cases rest with
    | nil => exact ⟨rfl, rfl⟩
    | cons c rest => simp [hrest c rfl]
  rw [List.takeWhile_append_of_pos hcs, List.dropWhile_append_of_pos hcs, hstop.1, hstop.2]
  exact ⟨List.append_nil _, rfl⟩

/-- What stops at the end of a word stops in front of a text that ends it. -/
theorem takeWhile_append_of_ends {p : Char → Bool} (hp : ∀ c, p c = true → Word.isNamePart c = true)
    {cs rest : List Char} (hcs : ∀ c ∈ cs, p c = true) (hrest : Ends rest) :
    (cs ++ rest).takeWhile p = cs ∧ (cs ++ rest).dropWhile p = rest := by
  refine takeWhile_append_of_stop hcs fun c hc => ?_
  cases h : p c with
  | false => rfl
  | true => exact absurd (hp c h) (by simp [(hrest c hc).1])

/-! ## Names -/

theorem toNat_of_isDigit {c : Char} (h : c.isDigit = true) : 48 ≤ c.toNat ∧ c.toNat ≤ 57 := by
  simpa [Char.isDigit, UInt32.le_iff_toNat_le] using h

theorem toNat_of_isAlpha {c : Char} (h : c.isAlpha = true) : 65 ≤ c.toNat := by
  rcases Bool.or_eq_true_iff.1 h with hupper | hlower
  · have hle : 'A'.val ≤ c.val := (of_decide_eq_true hupper).1
    exact UInt32.le_iff_toNat_le.1 hle
  · have hle : 'a'.val ≤ c.val := of_decide_eq_true (Bool.and_eq_true_iff.1 hlower).1
    exact Nat.le_trans (by decide) (UInt32.le_iff_toNat_le.1 hle)

/-- A digit is no letter. -/
theorem isNameStart_of_isDigit {c : Char} (h : c.isDigit = true) : Word.isNameStart c = false := by
  have hrange := toNat_of_isDigit h
  have halpha : c.isAlpha = false := by
    rw [Bool.eq_false_iff]
    intro ha
    have := toNat_of_isAlpha ha
    omega
  have hunderscore : c ≠ '_' := by
    rintro rfl
    cases h
  rw [Word.isNameStart, Text.isLetter_of_lt (by omega), halpha]
  simp [hunderscore]

/-- Which characters a name does not begin with. -/
theorem plain_of_isNameStart {c : Char} (h : Word.isNameStart c = true) :
    Chunk.isSpace c = false ∧ c ≠ '/' ∧ c ≠ '"' ∧ c.isDigit = false := by
  have hne (d : Char) (hd : Word.isNameStart d = false) : c ≠ d := by
    rintro rfl
    rw [h] at hd
    cases hd
  have hdigit : c.isDigit = false := by
    cases hc : c.isDigit with
    | false => rfl
    | true => rw [isNameStart_of_isDigit hc] at h; cases h
  refine ⟨?_, hne _ (by decide), hne _ (by decide), hdigit⟩
  simp [Chunk.isSpace, hne _ (by decide : Word.isNameStart ' ' = false),
    hne _ (by decide : Word.isNameStart '\t' = false),
    hne _ (by decide : Word.isNameStart '\r' = false),
    hne _ (by decide : Word.isNameStart '\n' = false)]

theorem wordsOf_name {c : Char} {cs rest : List Char} (hc : Word.isNameStart c = true)
    (hcs : ∀ d ∈ cs, Word.isNamePart d = true) (hrest : Ends rest) :
    wordsOf (c :: cs ++ rest) = Word.ofName (c :: cs) :: wordsOf rest := by
  obtain ⟨hspace, hslash, hquote, hdigit⟩ := plain_of_isNameStart hc
  have hparts : ∀ d ∈ c :: cs, Word.isNamePart d = true :=
    List.forall_mem_cons.2 ⟨Word.isNamePart_of_isNameStart hc, hcs⟩
  obtain ⟨htake, hdrop⟩ := takeWhile_append_of_ends (fun _ h => h) hparts hrest
  apply wordsOf_cons hspace (by simp [Chunk.startsComment, hslash])
  rw [Word.read, if_neg hquote, hdigit, hc]
  change Word.readName (c :: cs ++ rest) = _
  rw [Word.readName, htake, hdrop]

/-! ## Numbers -/

theorem plain_of_isDigit {c : Char} (h : c.isDigit = true) :
    Chunk.isSpace c = false ∧ c ≠ '/' ∧ c ≠ '"' := by
  have hne (d : Char) (hd : d.isDigit = false) : c ≠ d := by
    rintro rfl
    rw [h] at hd
    cases hd
  refine ⟨?_, hne _ rfl, hne _ rfl⟩
  simp [Chunk.isSpace, hne ' ' rfl, hne '\t' rfl, hne '\r' rfl, hne '\n' rfl]

theorem wordsOf_number {c : Char} {cs rest : List Char} {w : Word} (hc : c.isDigit = true)
    (h : Word.readNumber (c :: cs) = (w, rest)) : wordsOf (c :: cs) = w :: wordsOf rest := by
  obtain ⟨hspace, hslash, hquote⟩ := plain_of_isDigit hc
  apply wordsOf_cons hspace (by simp [Chunk.startsComment, hslash])
  rw [Word.read, if_neg hquote, hc]
  exact h

theorem wordsOf_integer {digits rest : List Char} (hne : digits ≠ [])
    (hdigits : ∀ c ∈ digits, c.isDigit = true) (hrest : Ends rest) :
    wordsOf (digits ++ rest) = Word.ofInteger digits :: wordsOf rest := by
  obtain ⟨htake, hdrop⟩ :=
    takeWhile_append_of_ends (fun _ h => isNamePart_of_isDigit h) hdigits hrest
  have hread : Word.readNumber (digits ++ rest) = (Word.ofInteger digits, rest) := by
    rw [Word.readNumber, htake, hdrop]
    split
    · exact absurd rfl (hrest '.' rfl).2.1
    · rfl
  cases digits with
  | nil => exact absurd rfl hne
  | cons c cs => exact wordsOf_number (hdigits c List.mem_cons_self) hread

theorem wordsOf_decimal {whole fraction rest : List Char} (hwhole : whole ≠ [])
    (hfraction : fraction ≠ []) (hw : ∀ c ∈ whole, c.isDigit = true)
    (hf : ∀ c ∈ fraction, c.isDigit = true) (hrest : Ends rest) :
    wordsOf (whole ++ '.' :: fraction ++ rest) = Word.ofDecimal whole fraction :: wordsOf rest := by
  obtain ⟨htake, hdrop⟩ := takeWhile_append_of_ends (fun _ h => isNamePart_of_isDigit h) hf hrest
  have hread : Word.readNumber (whole ++ '.' :: fraction ++ rest) =
      (Word.ofDecimal whole fraction, rest) := by
    rw [Word.readNumber, List.append_assoc, List.takeWhile_append_of_pos hw,
      List.dropWhile_append_of_pos hw]
    simp [htake, hdrop, hfraction]
  cases whole with
  | nil => exact absurd rfl hwhole
  | cons c cs => exact wordsOf_number (hw c List.mem_cons_self) hread

/-! ## Strings -/

/-- How a character is written in a string literal. -/
def StringPiece.ofChar (c : Char) : StringPiece :=
  if c = '\\' then .escaped '\\'
  else if c = '"' then .escaped '"'
  else if c = '\n' then .escaped 'n'
  else .raw c

theorem StringPiece.written_ofChar (c : Char) : (ofChar c).written = escapeLiteralChar c := by
  unfold ofChar escapeLiteralChar
  split
  · rfl
  · split
    · rfl
    · split <;> rfl

theorem StringPiece.meaning_ofChar (c : Char) : (ofChar c).meaning = [c] := by
  unfold ofChar
  split
  · rename_i h
    rw [h]
    rfl
  · split
    · rename_i h
      rw [h]
      rfl
    · split
      · rename_i h
        rw [h]
        rfl
      · rfl

namespace StringPiece

/-- Neither a quote nor a backslash stands for itself, and only some characters may stand behind a
backslash. -/
def Proper : StringPiece → Prop
  | .raw c => c ≠ '\\' ∧ c ≠ '"'
  | .escaped c => (escapes.lookup c).isSome = true

theorem proper_ofChar (c : Char) : (ofChar c).Proper := by
  unfold ofChar
  split
  · rfl
  · split
    · rfl
    · split
      · rfl
      · exact ⟨‹_›, ‹_›⟩

/-- A proper piece is read as it is written. -/
theorem Proper.readMany_append {p : StringPiece} (h : p.Proper) (rest : List Char) :
    readMany (p.written ++ rest) = (p :: (readMany rest).1, (readMany rest).2) := by
  cases p with
  | raw c =>
    change readMany (c :: rest) = _
    rw [readMany.eq_def]
    simp [h.1, h.2]
  | escaped c => simp [written, readMany]

theorem flaws_proper {ps : List StringPiece} (h : ∀ p ∈ ps, p.Proper) (skip : Nat) :
    flaws skip ps = [] := by
  induction ps generalizing skip with
  | nil => rfl
  | cons p ps ih =>
    obtain ⟨hp, hps⟩ := List.forall_mem_cons.1 h
    cases p with
    | raw c => exact ih hps _
    | escaped c =>
      have hknown : (escapes.lookup c).isSome = true := hp
      rw [flaws, if_pos hknown, ih hps]

/-- Proper pieces are read up to the closing quote. -/
theorem readMany_proper {ps : List StringPiece} (h : ∀ p ∈ ps, p.Proper) (rest : List Char) :
    readMany (ps.flatMap written ++ '"' :: rest) = (ps, '"' :: rest) := by
  induction ps with
  | nil =>
    change readMany ('"' :: rest) = _
    rw [readMany.eq_def]
    rfl
  | cons p ps ih =>
    obtain ⟨hp, hps⟩ := List.forall_mem_cons.1 h
    rw [List.flatMap_cons, List.append_assoc, hp.readMany_append, ih hps]

end StringPiece

/-- A literal of proper pieces stands for what they mean, whatever follows. -/
theorem wordsOf_pieces {ps : List StringPiece} (h : ∀ p ∈ ps, p.Proper) (rest : List Char) :
    wordsOf ('"' :: (ps.flatMap StringPiece.written ++ '"' :: rest)) =
      ⟨.string, '"' :: ps.flatMap StringPiece.written ++ ['"'],
        .text (String.ofList (ps.flatMap StringPiece.meaning)), []⟩ :: wordsOf rest := by
  apply wordsOf_cons rfl rfl
  rw [Word.read, if_pos rfl, Word.readString]
  simp only [StringPiece.readMany_proper h, StringPiece.flaws_proper h]

/-- The literal of a text stands for that text, whatever follows. -/
theorem wordsOf_string (s : String) (rest : List Char) :
    wordsOf ('"' :: (s.toList.flatMap escapeLiteralChar ++ '"' :: rest)) =
      ⟨.string, '"' :: s.toList.flatMap escapeLiteralChar ++ ['"'], .text s, []⟩ ::
        wordsOf rest := by
  have hproper : ∀ p ∈ s.toList.map StringPiece.ofChar, p.Proper :=
    List.forall_mem_map.2 fun c _ => StringPiece.proper_ofChar c
  simpa only [List.flatMap_map, StringPiece.written_ofChar, StringPiece.meaning_ofChar,
    List.flatMap_singleton', String.ofList_toList] using wordsOf_pieces hproper rest

/-! ## Marks -/

theorem mem_of_lookup {α β : Type} [BEq α] [LawfulBEq α] {entries : List (α × β)} {a : α} {b : β}
    (h : entries.lookup a = some b) : (a, b) ∈ entries := by
  obtain ⟨front, back, rfl, -⟩ := List.lookup_eq_some_iff.1 h
  simp

/-- No word of another sort begins with a mark. -/
theorem plain_of_single {c : Char} {kind : Token.Kind}
    (h : Token.Kind.singles.lookup c = some kind) :
    Chunk.isSpace c = false ∧ c ≠ '"' ∧ c.isDigit = false ∧ Word.isNameStart c = false := by
  have hall : ∀ p ∈ Token.Kind.singles, Chunk.isSpace p.1 = false ∧ p.1 ≠ '"' ∧
      p.1.isDigit = false ∧ Word.isNameStart p.1 = false := by decide
  exact hall _ (mem_of_lookup h)

theorem read_of_single {c : Char} {kind : Token.Kind}
    (h : Token.Kind.singles.lookup c = some kind) (rest : List Char) :
    Word.read c rest = Word.readMark c rest := by
  obtain ⟨-, hquote, hdigit, hname⟩ := plain_of_single h
  simp [Word.read, hquote, hdigit, hname]

/-- A mark of one character, unless the next one makes it a mark of two characters or a comment. -/
theorem wordsOf_single {c : Char} {kind : Token.Kind} {rest : List Char}
    (h : Token.Kind.singles.lookup c = some kind)
    (hrest : ∀ d ∈ rest.head?, (c = '/' → d ≠ '/') ∧ Token.Kind.doubles.lookup (c, d) = none) :
    wordsOf (c :: rest) = ⟨kind, [c], .null, []⟩ :: wordsOf rest := by
  obtain ⟨hspace, -⟩ := plain_of_single h
  have hcomment : Chunk.startsComment c rest = false := by
    cases rest with
    | nil => simp [Chunk.startsComment]
    | cons d rest =>
      simp only [Chunk.startsComment, List.head?_cons, Option.some.injEq]
      by_cases hc : c = '/'
      · simp [hc, (hrest d rfl).1 hc]
      · simp [hc]
  apply wordsOf_cons hspace hcomment
  have hnone : (rest.head?.bind fun d => Token.Kind.doubles.lookup (c, d)) = none := by
    cases rest with
    | nil => rfl
    | cons d rest => exact (hrest d rfl).2
  simp only [read_of_single h, Word.readMark, hnone, h]

theorem wordsOf_double {c d : Char} {kind : Token.Kind}
    (h : Token.Kind.doubles.lookup (c, d) = some kind) (rest : List Char) :
    wordsOf (c :: d :: rest) = ⟨kind, [c, d], .null, []⟩ :: wordsOf rest := by
  have hall : ∀ p ∈ Token.Kind.doubles, Chunk.isSpace p.1.1 = false ∧ p.1.1 ≠ '/' ∧
      (Token.Kind.singles.lookup p.1.1).isSome = true := by decide
  obtain ⟨hspace, hslash, hsingle⟩ := hall _ (mem_of_lookup h)
  obtain ⟨single, hsingle⟩ := Option.isSome_iff_exists.1 hsingle
  apply wordsOf_cons hspace (by simp [Chunk.startsComment, hslash])
  simp [read_of_single hsingle, Word.readMark, h]

end RuleLang
