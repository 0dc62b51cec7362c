import RuleLang.Proofs.Token.Munch

/-!
Words with single blanks between them. Every word but an unclosed string, which reaches to the end
of its text, is read again wherever a word ends behind it (`spells_read`). So the lexemes of a text,
with a blank between each two, are read as the words of the text (`wordsOf_spaced`).
-/
namespace RuleLang

/-! ## Words of one text in front of another one -/

/-- The pieces of a string are read again in front of any closing quote. -/
theorem StringPiece.readMany_written {cs tail : List Char} {ps : List StringPiece}
    (h : readMany cs = (ps, '"' :: tail)) (rest : List Char) :
    readMany (ps.flatMap written ++ '"' :: rest) = (ps, '"' :: rest) := by
  fun_induction readMany cs generalizing ps with
  | case1 => cases h
  | case2 cs =>
    obtain rfl : [] = ps := congrArg Prod.fst h
    rw [List.flatMap_nil, List.nil_append, readMany.eq_def]
    rfl
  | case3 => cases h
  | case4 d cs ps' tail' hread hquote ih =>
    obtain ⟨rfl, rfl⟩ := Prod.mk.inj h
    have hagain := ih hread
    change readMany ('\\' :: d :: (ps'.flatMap written ++ '"' :: rest)) = _
    rw [Lexical.readMany_escaped_cons, hagain]
  | case5 c cs hquote hbackslash ps' tail' hread ih =>
    obtain ⟨rfl, rfl⟩ := Prod.mk.inj h
    have hagain := ih hread
    change readMany (c :: (ps'.flatMap written ++ '"' :: rest)) = _
    rw [Lexical.readMany_raw_cons hquote hbackslash, hagain]

theorem readString_closed {body tail : List Char} {ps : List StringPiece}
    (h : StringPiece.readMany body = (ps, '"' :: tail)) :
    Word.readString body = (⟨.string, '"' :: ps.flatMap StringPiece.written ++ ['"'],
      .text (String.ofList (ps.flatMap StringPiece.meaning)), StringPiece.flaws 1 ps⟩, tail) := by
  rw [Word.readString, h]
  rfl

/-- A string that is closed is read in front of any text. -/
theorem spells_string {body tail : List Char} {ps : List StringPiece}
    (h : StringPiece.readMany body = (ps, '"' :: tail)) :
    Spells (Word.readString body).1.lexeme [(Word.readString body).1] := by
  intro rest _
  have hagain := readString_closed (StringPiece.readMany_written h rest)
  rw [readString_closed h, List.append_assoc]
  exact wordsOf_cons rfl rfl hagain

theorem wordsOf_malformed {whole rest : List Char} (hne : whole ≠ [])
    (hwhole : ∀ c ∈ whole, c.isDigit = true) (hrest : Ends rest) :
    wordsOf (whole ++ ['.'] ++ rest) =
      .invalid (whole ++ ['.']) (.malformedNumber (String.ofList (whole ++ ['.']))) ::
        wordsOf rest := by
  have hnone : rest.takeWhile Char.isDigit = [] :=
    (takeWhile_append_of_ends (fun _ h => isNamePart_of_isDigit h) (List.forall_mem_nil _)
      hrest).1
  have hread : Word.readNumber (whole ++ ['.'] ++ rest) =
      (.invalid (whole ++ ['.']) (.malformedNumber (String.ofList (whole ++ ['.']))), rest) := by
    rw [Word.readNumber, List.append_assoc, List.takeWhile_append_of_pos hwhole,
      List.dropWhile_append_of_pos hwhole]
    simp [hnone]
  cases whole with
  | nil => exact absurd rfl hne
  | cons c cs => exact wordsOf_number (hwhole c List.mem_cons_self) hread

theorem spells_number {text : List Char} (htext : text.takeWhile Char.isDigit ≠ []) :
    Spells (Word.readNumber text).1.lexeme [(Word.readNumber text).1] := by
  intro rest hrest
  have hwhole := (Lexical.isDigits_takeWhile htext).2
  unfold Word.readNumber
  split
  · rename_i more hdrop
    by_cases hnone : more.takeWhile Char.isDigit = []
    · simp only [hnone, List.isEmpty_nil, if_true]
      exact wordsOf_malformed htext hwhole hrest
    · have hfraction := (Lexical.isDigits_takeWhile hnone).2
      simp only [List.isEmpty_iff, hnone, if_false, Word.lexeme_ofDecimal]
      exact wordsOf_decimal htext hnone hwhole hfraction hrest
  · rw [Word.lexeme_ofInteger]
    exact wordsOf_integer htext hwhole hrest

theorem spells_run {c : Char} (hc : Word.isNameStart c = true) (rest : List Char) :
    Spells (Word.readName (c :: rest)).1.lexeme [(Word.readName (c :: rest)).1] := by
  intro behind hbehind
  rw [Word.readName, List.takeWhile_cons_of_pos (Word.isNamePart_of_isNameStart hc),
    Word.lexeme_ofName]
  exact wordsOf_name hc (List.all_eq_true.1 List.all_takeWhile) hbehind

/-- A character that begins no word is one on its own. -/
theorem spells_unexpected {c : Char} (hspace : Chunk.isSpace c = false) (hquote : c ≠ '"')
    (hdigit : c.isDigit = false) (hname : Word.isNameStart c = false)
    (hsingle : Token.Kind.singles.lookup c = none) :
    Spells [c] [.invalid [c] (.unexpectedCharacter c)] := by
  intro rest hrest
  have hslash : c ≠ '/' := by
    rintro rfl
    cases hsingle
  have hdouble : (rest.head?.bind fun d => Token.Kind.doubles.lookup (c, d)) = none := by
    cases rest with
    | nil => rfl
    | cons d rest => exact lookup_doubles_of_ne (hrest d rfl).2.2.1 c
  have hread : Word.read c rest = (.invalid [c] (.unexpectedCharacter c), rest) := by
    simp only [Word.read, hquote, hdigit, hname, if_false, Bool.false_eq_true, Word.readMark,
      hdouble, hsingle]
  exact wordsOf_cons hspace (by simp [Chunk.startsComment, hslash]) hread

theorem spells_mark {c : Char} (hspace : Chunk.isSpace c = false) (hquote : c ≠ '"')
    (hdigit : c.isDigit = false) (hname : Word.isNameStart c = false) (rest : List Char) :
    Spells (Word.readMark c rest).1.lexeme [(Word.readMark c rest).1] := by
  unfold Word.readMark
  split
  · rename_i kind hkind
    obtain ⟨d, hd, hkind⟩ := Option.bind_eq_some_iff.1 hkind
    obtain ⟨rest, rfl⟩ := List.head?_eq_some_iff.1 hd
    exact spells_double hkind
  · split
    · rename_i kind hkind
      exact spells_single hkind
    · rename_i hnone
      exact spells_unexpected hspace hquote hdigit hname hnone

/-- A word that does not reach to the end of its text is read again wherever a word ends behind
it. -/
theorem spells_read {c : Char} {rest : List Char} (hspace : Chunk.isSpace c = false)
    (hrest : (Word.read c rest).2 ≠ []) :
    Spells (Word.read c rest).1.lexeme [(Word.read c rest).1] := by
  unfold Word.read at hrest ⊢
  split
  · rename_i hquote
    rw [if_pos hquote] at hrest
    cases hread : StringPiece.readMany rest with
    | mk ps tail =>
      by_cases hclosed : ∃ behind, tail = '"' :: behind
      · obtain ⟨behind, rfl⟩ := hclosed
        exact spells_string hread
      · have hunclosed : (Word.readString rest).2 = [] := by
          rw [Word.readString, hread]
          split
          · rename_i heq
            exact absurd ⟨_, (Prod.mk.inj heq).2⟩ hclosed
          · rfl
        exact absurd hunclosed hrest
  · rename_i hquote
    split
    · rename_i hdigit
      exact spells_number (Lexical.takeWhile_digit_ne_nil hdigit rest)
    · rename_i hdigit
      split
      · rename_i hname
        exact spells_run hname rest
      · rename_i hname
        exact spells_mark hspace hquote (Bool.eq_false_iff.2 hdigit) (Bool.eq_false_iff.2 hname)
          rest

/-! ## Texts -/

/-- The lexemes of words, with a blank between each two. -/
def spaced (ws : List Word) : List Char := [' '].intercalate (ws.map Word.lexeme)

theorem spaced_cons (w : Word) (ws : List Word) :
    spaced (w :: ws) = w.lexeme ++ if ws = [] then [] else ' ' :: spaced ws := by
  cases ws with
  | nil => simp [spaced]
  | cons v ws => simp [spaced]

/-- The words of a text are those of its first part and of what follows it. -/
theorem wordsOf_read (c : Char) (rest : List Char) :
    wordsOf (c :: rest) =
      (Chunk.read c rest).1.word?.toList ++ wordsOf (Chunk.read c rest).2 := by
  rw [wordsOf, Chunk.ofSource_cons, List.filterMap_cons]
  cases (Chunk.read c rest).1 <;> rfl

/-- Blanks and comments between the words of a text leave no trace: with single blanks in their
place, the words are the same. -/
theorem wordsOf_spaced (cs : List Char) : wordsOf (spaced (wordsOf cs)) = wordsOf cs := by
  fun_induction Chunk.ofSource cs with
  | case1 => simp [spaced]
  | case2 c rest ih =>
    obtain ⟨-, hread⟩ | ⟨_, _, -, -, -, -, hread⟩ | ⟨hspace, hcomment, hread⟩ :=
      Chunk.read_cases c rest
    · rw [hread] at ih
      rw [wordsOf_read, hread]
      exact ih
    · rw [hread] at ih
      rw [wordsOf_read, hread]
      exact ih
    · rw [hread] at ih
      have happend := Word.read_append c rest
      rw [wordsOf_read, hread]
      change wordsOf (spaced ((Word.read c rest).1 :: wordsOf (Word.read c rest).2)) =
        (Word.read c rest).1 :: wordsOf (Word.read c rest).2
      rw [spaced_cons]
      by_cases hnone : (Word.read c rest).2 = []
      · -- The word is all that is left of the text, so it is the same text that is read again.
        rw [hnone, List.append_nil] at happend
        rw [hnone, wordsOf_nil, if_pos rfl, List.append_nil, happend, wordsOf_read, hread]
        change _ :: wordsOf (Word.read c rest).2 = _
        rw [hnone, wordsOf_nil]
      · rw [spells_read hspace hnone]
        · split
          · rename_i hempty
            rw [hempty, wordsOf_nil]
            rfl
          · rw [wordsOf_space rfl, ih]
            rfl
        · split
          · exact ends_nil
          · exact ends_cons (by decide) _

end RuleLang
