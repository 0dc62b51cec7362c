import RuleLang.Proofs.Token.Lexing
import RuleLang.Proofs.Token.Rules

/-!
The reader of texts follows the lexical grammar. Each part of it gives the one word that the rules
of its sort allow, which is the longest one; so the words of a text, each at its own offset, are the
only way in which the rules cut the text (`cut_iff_lex`).
-/
namespace RuleLang.Lexical

/-! ## Strings -/

theorem meaning_unknown {c : Char} (hc : c ∉ ['"', '\\', 'n']) :
    (StringPiece.escaped c).meaning = ['\\', c] := by
  have hnone : StringPiece.escapes.lookup c = none := by
    rw [List.lookup_eq_none_iff]
    intro p hp
    rw [bne_iff_ne]
    rintro rfl
    exact hc (List.mem_map_of_mem (f := Prod.fst) hp)
  simp only [StringPiece.meaning, hnone]

theorem Body.escaped {body value : List Char} (h : Body body value) (c : Char) :
    Body ((StringPiece.escaped c).written ++ body) ((StringPiece.escaped c).meaning ++ value) := by
  by_cases hc : c ∈ ['"', '\\', 'n']
  · simp only [List.mem_cons, List.not_mem_nil, or_false] at hc
    obtain rfl | rfl | rfl := hc
    · exact .quote h
    · exact .backslash h
    · exact .lineFeed h
  · rw [meaning_unknown hc]
    exact .unknown hc h

/-- The pieces that are read make up a body and what it stands for. -/
theorem body_readMany (cs : List Char) :
    Body ((StringPiece.readMany cs).1.flatMap StringPiece.written)
      ((StringPiece.readMany cs).1.flatMap StringPiece.meaning) := by
  fun_induction StringPiece.readMany cs with
  | case1 => exact .empty
  | case2 => exact .empty
  | case3 => exact .empty
  | case4 d rest ps tail hread _ ih =>
    rw [hread] at ih
    exact ih.escaped d
  | case5 c rest hquote hbackslash ps tail hread ih =>
    rw [hread] at ih
    exact .plain hquote hbackslash ih

theorem readMany_escaped_cons (c : Char) (cs : List Char) :
    StringPiece.readMany ('\\' :: c :: cs) =
      (.escaped c :: (StringPiece.readMany cs).1, (StringPiece.readMany cs).2) := by
  rw [StringPiece.readMany.eq_def]
  rfl

theorem readMany_raw_cons {c : Char} (hquote : c ≠ '"') (hbackslash : c ≠ '\\') (cs : List Char) :
    StringPiece.readMany (c :: cs) =
      (.raw c :: (StringPiece.readMany cs).1, (StringPiece.readMany cs).2) := by
  rw [StringPiece.readMany.eq_def]
  simp [hquote, hbackslash]

/-- A body is read up to the quote behind it, in pieces that stand for what it stands for. -/
theorem Body.readMany {body value : List Char} (h : Body body value) (rest : List Char) :
    ∃ ps, StringPiece.readMany (body ++ '"' :: rest) = (ps, '"' :: rest) ∧
      ps.flatMap StringPiece.written = body ∧ ps.flatMap StringPiece.meaning = value := by
  have next {body value cs : List Char} (p : StringPiece)
      (h : ∃ ps, StringPiece.readMany (body ++ '"' :: rest) = (ps, '"' :: rest) ∧
        ps.flatMap StringPiece.written = body ∧ ps.flatMap StringPiece.meaning = value)
      (hread : StringPiece.readMany cs = (p :: (StringPiece.readMany (body ++ '"' :: rest)).1,
        (StringPiece.readMany (body ++ '"' :: rest)).2)) :
      ∃ ps, StringPiece.readMany cs = (ps, '"' :: rest) ∧
        ps.flatMap StringPiece.written = p.written ++ body ∧
        ps.flatMap StringPiece.meaning = p.meaning ++ value := by
    obtain ⟨ps, hps, rfl, rfl⟩ := h
    exact ⟨p :: ps, by rw [hread, hps], rfl, rfl⟩
  induction h with
  | empty => exact ⟨[], by rw [List.nil_append, StringPiece.readMany.eq_def]; rfl, rfl, rfl⟩
  | @plain c _ _ hquote hbackslash _ ih =>
    exact next (.raw c) ih (readMany_raw_cons hquote hbackslash _)
  | quote _ ih => exact next (.escaped '"') ih (readMany_escaped_cons _ _)
  | backslash _ ih => exact next (.escaped '\\') ih (readMany_escaped_cons _ _)
  | lineFeed _ ih => exact next (.escaped 'n') ih (readMany_escaped_cons _ _)
  | @unknown c _ _ hc _ ih =>
    have hnext := next (.escaped c) ih (readMany_escaped_cons _ _)
    rwa [meaning_unknown hc] at hnext

theorem readString_unclosed {cs : List Char}
    (h : ∀ ps rest, StringPiece.readMany cs ≠ (ps, '"' :: rest)) :
    (Word.readString cs).1.flawless = ⟨.invalid, '"' :: cs, .null, []⟩ := by
  unfold Word.readString
  split
  · rename_i hread
    exact absurd hread (h _ _)
  · rfl

/-- The reader of strings gives the word of the rules, and no other word follows from them. -/
theorem stringWord_iff {cs : List Char} {w : Word} :
    StringWord cs w ↔ w = (Word.readString cs).1.flawless := by
  constructor
  · rintro (⟨hbody⟩ | ⟨hnone⟩)
    · rename_i rest
      obtain ⟨ps, hread, rfl, rfl⟩ := hbody.readMany rest
      rw [Word.readString, hread]
      rfl
    · rw [readString_unclosed]
      intro ps rest hread
      have hwritten := StringPiece.written_readMany cs
      rw [hread] at hwritten
      exact hnone _ _ rest (hread ▸ body_readMany cs) hwritten.symm
  · rintro rfl
    by_cases hclosed : ∃ ps rest, StringPiece.readMany cs = (ps, '"' :: rest)
    · obtain ⟨ps, rest, hread⟩ := hclosed
      have hwritten := StringPiece.written_readMany cs
      have hbody := body_readMany cs
      rw [hread] at hwritten hbody
      rw [Word.readString, hread, ← hwritten]
      exact .closed hbody
    · rw [readString_unclosed fun ps rest hread => hclosed ⟨ps, rest, hread⟩]
      refine .unclosed fun body value rest hbody hcs => hclosed ?_
      obtain ⟨ps, hread, -⟩ := hbody.readMany rest
      exact ⟨ps, rest, hcs ▸ hread⟩

/-! ## Numbers -/

/-- Of what all has a property, a beginning of a text is within the longest run that has it. -/
theorem length_le_takeWhile {p : Char → Bool} {cs text : List Char} (h : ∀ c ∈ cs, p c = true)
    (hfront : cs <+: text) : cs.length ≤ (text.takeWhile p).length := by
  obtain ⟨rest, rfl⟩ := hfront
  rw [List.takeWhile_append_of_pos h, List.length_append]
  omega

/-- Where the digits in front of a point end, and what may stand behind the point. -/
theorem split_decimal {whole fraction text : List Char} (h : IsDigits whole)
    (hfront : whole ++ '.' :: fraction <+: text) :
    text.takeWhile Char.isDigit = whole ∧
      ∃ rest, text.dropWhile Char.isDigit = '.' :: rest ∧ fraction <+: rest := by
  obtain ⟨rest, rfl⟩ := hfront
  rw [List.append_assoc, List.takeWhile_append_of_pos h.2, List.dropWhile_append_of_pos h.2]
  exact ⟨by simp, fraction ++ rest, by simp, List.prefix_append fraction rest⟩

theorem isDigits_takeWhile {text : List Char} (h : text.takeWhile Char.isDigit ≠ []) :
    IsDigits (text.takeWhile Char.isDigit) :=
  ⟨h, List.all_eq_true.1 List.all_takeWhile⟩

theorem not_isDigits_point (whole fraction : List Char) :
    ¬IsDigits (whole ++ '.' :: fraction) := by
  intro h
  have hpoint := h.2 '.' (by simp)
  cases hpoint

/-- A point and a digit behind it make the numeral longer. -/
theorem longest_decimal {text rest : List Char} (hwhole : text.takeWhile Char.isDigit ≠ [])
    (hdrop : text.dropWhile Char.isDigit = '.' :: rest)
    (hfraction : rest.takeWhile Char.isDigit ≠ []) :
    Longest IsNumeral text
      (text.takeWhile Char.isDigit ++ '.' :: rest.takeWhile Char.isDigit) where
  holds := .decimal (isDigits_takeWhile hwhole) (isDigits_takeWhile hfraction)
  front := by
    refine ⟨rest.dropWhile Char.isDigit, ?_⟩
    rw [List.append_assoc, List.cons_append, List.takeWhile_append_dropWhile, ← hdrop,
      List.takeWhile_append_dropWhile]
  greatest := by
    rintro other (⟨hdigits⟩ | ⟨hw, hf⟩) hfront
    · have := length_le_takeWhile hdigits.2 hfront
      rw [List.length_append]
      omega
    · obtain ⟨heq, rest', hdrop', hfront'⟩ := split_decimal hw hfront
      rw [hdrop] at hdrop'
      obtain rfl := (List.cons.inj hdrop').2
      have := length_le_takeWhile hf.2 hfront'
      simp only [← heq, List.length_append, List.length_cons]
      omega

/-- Without a digit behind a point, the numeral ends in front of it. -/
theorem longest_integer {text : List Char} (hwhole : text.takeWhile Char.isDigit ≠ [])
    (hnone : ∀ rest, text.dropWhile Char.isDigit = '.' :: rest →
      rest.takeWhile Char.isDigit = []) :
    Longest IsNumeral text (text.takeWhile Char.isDigit) where
  holds := .integer (isDigits_takeWhile hwhole)
  front := List.takeWhile_prefix _
  greatest := by
    rintro other (⟨hdigits⟩ | ⟨hw, hf⟩) hfront
    · exact length_le_takeWhile hdigits.2 hfront
    · obtain ⟨-, rest, hdrop, hfront'⟩ := split_decimal hw hfront
      have := length_le_takeWhile hf.2 hfront'
      rw [hnone rest hdrop] at this
      exact absurd (List.length_eq_zero_iff.1 (Nat.le_zero.1 this)) hf.1

theorem prefix_point_iff {text : List Char} :
    text.takeWhile Char.isDigit ++ ['.'] <+: text ↔
      ∃ rest, text.dropWhile Char.isDigit = '.' :: rest := by
  have hsplit := List.takeWhile_append_dropWhile (p := Char.isDigit) (l := text)
  constructor
  · rintro ⟨rest, hrest⟩
    rw [List.append_assoc, List.singleton_append] at hrest
    exact ⟨rest, List.append_cancel_left (hsplit.trans hrest.symm)⟩
  · rintro ⟨rest, hrest⟩
    exact ⟨rest, by rw [List.append_assoc, List.singleton_append, ← hrest, hsplit]⟩

/-- The three ways in which a number is read: digits on both sides of a point, digits and a point
without a digit behind it, or digits alone. -/
theorem readNumber_cases {text : List Char} (h : text.takeWhile Char.isDigit ≠ []) :
    (∃ fraction, IsDigits fraction ∧
      Longest IsNumeral text (text.takeWhile Char.isDigit ++ '.' :: fraction) ∧
      (Word.readNumber text).1 = .ofDecimal (text.takeWhile Char.isDigit) fraction) ∨
    (Longest IsNumeral text (text.takeWhile Char.isDigit) ∧
      ((text.takeWhile Char.isDigit ++ ['.'] <+: text ∧ (Word.readNumber text).1.flawless =
          ⟨.invalid, text.takeWhile Char.isDigit ++ ['.'], .null, []⟩) ∨
        (¬text.takeWhile Char.isDigit ++ ['.'] <+: text ∧
          (Word.readNumber text).1 = .ofInteger (text.takeWhile Char.isDigit)))) := by
  rw [prefix_point_iff]
  unfold Word.readNumber
  split
  · rename_i rest hdrop
    by_cases hnone : rest.takeWhile Char.isDigit = []
    · refine .inr ⟨longest_integer h fun rest' hdrop' => ?_, .inl ⟨⟨rest, hdrop⟩, ?_⟩⟩
      · rw [hdrop] at hdrop'
        rw [← (List.cons.inj hdrop').2, hnone]
      · simp only [hnone, List.isEmpty_nil, if_pos]
        rfl
    · refine .inl ⟨_, isDigits_takeWhile hnone, longest_decimal h hdrop hnone, ?_⟩
      rw [if_neg (by simpa using hnone)]
  · rename_i hpoint
    exact .inr ⟨longest_integer h fun rest hdrop => absurd hdrop (hpoint rest),
      .inr ⟨fun ⟨rest, hdrop⟩ => hpoint rest hdrop, rfl⟩⟩

theorem flawless_ofInteger_short {digits : List Char} (h : digits.length ≤ 4300) :
    (Word.ofInteger digits).flawless =
      ⟨.number, digits, .int (Nat.ofDigitChars 10 digits 0), []⟩ := by
  rw [Word.ofInteger, Word.maxDigits, if_pos h]
  rfl

theorem flawless_ofInteger_long {digits : List Char} (h : 4300 < digits.length) :
    (Word.ofInteger digits).flawless = ⟨.invalid, digits, .null, []⟩ := by
  rw [Word.ofInteger, Word.maxDigits, if_neg (Nat.not_le.2 h)]
  rfl

theorem value_decimal (whole fraction : List Char) :
    (Word.decimal whole fraction).value = decimalValue whole fraction := by
  rw [Word.decimal, Decimal.value, decimalValue, Nat.ofDigitChars_append,
    Nat.ofDigitChars_eq_ofDigitChars_zero]
  push_cast
  rw [zpow_neg, zpow_natCast]
  field_simp

/-- A decimal that is correctly rounded to a magnitude. -/
theorem ofDecimal_of_isNearest {whole fraction : List Char} {m : Magnitude}
    (h : m.IsNearest (decimalValue whole fraction)) :
    Word.ofDecimal whole fraction =
      ⟨.number, whole ++ '.' :: fraction, .float (.finite false m), []⟩ := by
  rw [Word.ofDecimal, Double.ofDecimal_eq_finite_iff.2 (value_decimal whole fraction ▸ h)]
  rfl

/-- A decimal that is too large for any magnitude. -/
theorem flawless_ofDecimal_of_overflow {whole fraction : List Char}
    (h : Magnitude.overflow ≤ decimalValue whole fraction) :
    (Word.ofDecimal whole fraction).flawless =
      ⟨.invalid, whole ++ '.' :: fraction, .null, []⟩ := by
  rw [Word.ofDecimal, Double.ofDecimal_eq_infinite_iff.2 (value_decimal whole fraction ▸ h)]
  rfl

/-- The reader of numbers gives the word of the rules, and no other word follows from them. -/
theorem numberWord_iff {text : List Char} (htext : text.takeWhile Char.isDigit ≠ []) {w : Word} :
    NumberWord text w ↔ w = (Word.readNumber text).1.flawless := by
  constructor
  · intro h
    obtain ⟨fraction, hf, hlongest, hread⟩ | ⟨hlongest, hcases⟩ := readNumber_cases htext
    · have hdecimal {whole fraction' : List Char} (hw : IsDigits whole)
          (h : Longest IsNumeral text (whole ++ '.' :: fraction')) :
          whole = text.takeWhile Char.isDigit ∧ fraction' = fraction := by
        have hwhole := (split_decimal hw h.front).1
        have heq := h.unique hlongest
        rw [← hwhole] at heq ⊢
        exact ⟨rfl, (List.cons.inj (List.append_cancel_left heq)).2⟩
      rw [hread]
      cases h with
      | integer hdigits h | tooLong hdigits h | malformed hdigits h =>
        exact absurd (h.unique hlongest ▸ hdigits) (not_isDigits_point _ _)
      | decimal hw hf h hvalue =>
        obtain ⟨rfl, rfl⟩ := hdecimal hw h
        rw [ofDecimal_of_isNearest hvalue]
        rfl
      | tooLarge hw hf h hvalue =>
        obtain ⟨rfl, rfl⟩ := hdecimal hw h
        rw [flawless_ofDecimal_of_overflow hvalue]
    · cases h with
      | decimal hw hf h | tooLarge hw hf h =>
        exact absurd (h.unique hlongest ▸ isDigits_takeWhile htext) (not_isDigits_point _ _)
      | integer hdigits h hpoint hlength =>
        obtain rfl := h.unique hlongest
        obtain ⟨hp, -⟩ | ⟨-, hread⟩ := hcases
        · exact absurd hp hpoint
        · rw [hread, flawless_ofInteger_short hlength]
      | tooLong hdigits h hpoint hlength =>
        obtain rfl := h.unique hlongest
        obtain ⟨hp, -⟩ | ⟨-, hread⟩ := hcases
        · exact absurd hp hpoint
        · rw [hread, flawless_ofInteger_long hlength]
      | malformed hdigits h hpoint =>
        obtain rfl := h.unique hlongest
        obtain ⟨-, hread⟩ | ⟨hp, -⟩ := hcases
        · rw [hread]
        · exact absurd hpoint hp
  · rintro rfl
    have hwhole := isDigits_takeWhile htext
    obtain ⟨fraction, hf, hlongest, hread⟩ |
      ⟨hlongest, ⟨hpoint, hread⟩ | ⟨hpoint, hread⟩⟩ := readNumber_cases htext
    · rw [hread]
      have hcases :=
        Double.ofDecimal_cases false (Word.decimal (text.takeWhile Char.isDigit) fraction)
      rw [value_decimal] at hcases
      obtain ⟨m, -, hvalue⟩ | ⟨-, hvalue⟩ := hcases
      · rw [ofDecimal_of_isNearest hvalue]
        exact .decimal hwhole hf hlongest hvalue
      · rw [flawless_ofDecimal_of_overflow hvalue]
        exact .tooLarge hwhole hf hlongest hvalue
    · rw [hread]
      exact .malformed hwhole hlongest hpoint
    · rw [hread]
      obtain hlength | hlength := Nat.lt_or_ge 4300 (text.takeWhile Char.isDigit).length
      · rw [flawless_ofInteger_long hlength]
        exact .tooLong hwhole hlongest hpoint hlength
      · rw [flawless_ofInteger_short hlength]
        exact .integer hwhole hlongest hpoint hlength

/-! ## Names -/

theorem isNameStart_iff {c : Char} : Word.isNameStart c = true ↔ IsNameStart c := by
  simp [Word.isNameStart, IsNameStart]

theorem isNamePart_iff {c : Char} : Word.isNamePart c = true ↔ IsNamePart c := by
  simp [Word.isNamePart, IsNamePart, or_assoc]

theorem IsNameStart.isNamePart {c : Char} (h : IsNameStart c) : IsNamePart c :=
  isNamePart_iff.1 (Word.isNamePart_of_isNameStart (isNameStart_iff.2 h))

theorem longest_run {c : Char} (hc : IsNameStart c) (rest : List Char) :
    Longest IsRun (c :: rest) ((c :: rest).takeWhile Word.isNamePart) where
  holds := by
    refine ⟨c, rest.takeWhile Word.isNamePart, ?_, hc, fun d hd => isNamePart_iff.1 ?_⟩
    · rw [List.takeWhile_cons_of_pos (isNamePart_iff.2 hc.isNamePart)]
    · exact List.all_eq_true.1 List.all_takeWhile d hd
  front := List.takeWhile_prefix _
  greatest := by
    rintro other ⟨d, parts, rfl, hd, hparts⟩ hfront
    exact length_le_takeWhile (List.forall_mem_cons.2 ⟨isNamePart_iff.2 hd.isNamePart,
      fun e he => isNamePart_iff.2 (hparts e he)⟩) hfront

/-- Where no key stands twice, looking one up is finding its entry. -/
theorem lookup_eq_some_iff_mem {α β : Type} [BEq α] [LawfulBEq α] {entries : List (α × β)}
    (hall : ∀ p ∈ entries, entries.lookup p.1 = some p.2) {a : α} {b : β} :
    entries.lookup a = some b ↔ (a, b) ∈ entries :=
  ⟨mem_of_lookup, fun h => hall _ h⟩

theorem lookup_keywords {name : String} {kind : Token.Kind} :
    Token.Kind.keywords.lookup name = some kind ↔ (name, kind) ∈ reserved :=
  lookup_eq_some_iff_mem (by decide)

/-- The reader of names gives the word of the rules, and no other word follows from them. -/
theorem nameWord_iff {c : Char} {rest : List Char} (hc : IsNameStart c) {w : Word} :
    NameWord (c :: rest) w ↔ w = (Word.readName (c :: rest)).1.flawless := by
  have hlongest := longest_run hc rest
  constructor
  · rintro (⟨h, hkind⟩ | ⟨h, hname⟩)
    · obtain rfl := h.unique hlongest
      rw [Word.readName, Word.ofName, lookup_keywords.2 hkind]
      rfl
    · obtain rfl := h.unique hlongest
      rw [Word.readName, Word.ofName, Option.eq_none_iff_forall_ne_some.2
        fun kind hkind => hname kind (lookup_keywords.1 hkind)]
      rfl
  · rintro rfl
    rw [Word.readName, Word.ofName]
    split
    · rename_i hkind
      exact .reserved hlongest (lookup_keywords.1 hkind)
    · rename_i hnone
      refine .name hlongest fun kind hkind => ?_
      rw [lookup_keywords.2 hkind] at hnone
      cases hnone

/-! ## Marks -/

/-- The marks are those that the reader of marks knows. -/
theorem marks_eq : marks = Token.Kind.doubles.map (fun p => ([p.1.1, p.1.2], p.2)) ++
    Token.Kind.singles.map (fun p => ([p.1], p.2)) := rfl

theorem pair_mem_marks {c d : Char} {kind : Token.Kind} :
    ([c, d], kind) ∈ marks ↔ Token.Kind.doubles.lookup (c, d) = some kind := by
  rw [lookup_eq_some_iff_mem (by decide)]
  simp [marks_eq]

theorem single_mem_marks {c : Char} {kind : Token.Kind} :
    ([c], kind) ∈ marks ↔ Token.Kind.singles.lookup c = some kind := by
  rw [lookup_eq_some_iff_mem (by decide)]
  simp [marks_eq]

theorem kind_unique {cs : List Char} {kind kind' : Token.Kind} (h : (cs, kind) ∈ marks)
    (h' : (cs, kind') ∈ marks) : kind = kind' := by
  rw [← lookup_eq_some_iff_mem (by decide)] at h h'
  exact Option.some.inj (h.symm.trans h')

theorem IsMark.cases {cs : List Char} (h : IsMark cs) :
    (∃ c d kind, cs = [c, d] ∧ Token.Kind.doubles.lookup (c, d) = some kind) ∨
      ∃ c kind, cs = [c] ∧ Token.Kind.singles.lookup c = some kind := by
  obtain ⟨kind, h⟩ := h
  obtain hpair | hsingle := List.mem_append.1 (marks_eq ▸ h)
  · obtain ⟨⟨⟨c, d⟩, _⟩, -, heq⟩ := List.mem_map.1 hpair
    obtain ⟨rfl, rfl⟩ := Prod.mk.inj heq
    exact .inl ⟨c, d, _, rfl, pair_mem_marks.1 h⟩
  · obtain ⟨⟨c, _⟩, -, heq⟩ := List.mem_map.1 hsingle
    obtain ⟨rfl, rfl⟩ := Prod.mk.inj heq
    exact .inr ⟨c, _, rfl, single_mem_marks.1 h⟩

/-- A text begins with a mark, which the reader of marks gives, or with none. -/
theorem readMark_cases (c : Char) (rest : List Char) :
    (∃ lexeme kind, Longest IsMark (c :: rest) lexeme ∧ (lexeme, kind) ∈ marks ∧
      (Word.readMark c rest).1 = ⟨kind, lexeme, .null, []⟩) ∨
    ((∀ lexeme, IsMark lexeme → ¬lexeme <+: c :: rest) ∧
      (Word.readMark c rest).1.flawless = ⟨.invalid, [c], .null, []⟩) := by
  unfold Word.readMark
  split
  · rename_i kind hdouble
    obtain ⟨d, hd, hkind⟩ := Option.bind_eq_some_iff.1 hdouble
    obtain ⟨tail, rfl⟩ := List.head?_eq_some_iff.1 hd
    have hmem := pair_mem_marks.2 hkind
    refine .inl ⟨[c, d], kind, ⟨⟨kind, hmem⟩, ⟨tail, rfl⟩, fun other hother _ => ?_⟩, hmem, rfl⟩
    obtain ⟨_, _, _, rfl, -⟩ | ⟨_, _, rfl, -⟩ := hother.cases
    · exact Nat.le_refl 2
    · exact Nat.le_succ 1
  · rename_i hdouble
    have hnopair {d e : Char} {kind : Token.Kind}
        (h : Token.Kind.doubles.lookup (d, e) = some kind) : ¬[d, e] <+: c :: rest := by
      rintro ⟨tail, htail⟩
      obtain ⟨rfl, rfl⟩ := List.cons.inj (htail : d :: e :: tail = c :: rest)
      change Token.Kind.doubles.lookup (d, e) = none at hdouble
      rw [h] at hdouble
      cases hdouble
    split
    · rename_i kind hsingle
      have hmem := single_mem_marks.2 hsingle
      refine .inl ⟨[c], kind, ⟨⟨kind, hmem⟩, ⟨rest, rfl⟩, fun other hother hfront => ?_⟩, hmem, rfl⟩
      obtain ⟨_, _, _, rfl, h⟩ | ⟨_, _, rfl, -⟩ := hother.cases
      · exact absurd hfront (hnopair h)
      · exact Nat.le_refl 1
    · rename_i hsingle
      refine .inr ⟨fun lexeme hlexeme hfront => ?_, rfl⟩
      obtain ⟨_, _, _, rfl, h⟩ | ⟨_, _, rfl, h⟩ := hlexeme.cases
      · exact hnopair h hfront
      · obtain ⟨tail, htail⟩ := hfront
        rw [(List.cons.inj htail).1, hsingle] at h
        cases h

/-- The reader of marks gives the word of the rules, and no other word follows from them. -/
theorem markWord_iff {c : Char} {rest : List Char} {w : Word} :
    MarkWord (c :: rest) w ↔ w = (Word.readMark c rest).1.flawless := by
  obtain ⟨lexeme, kind, hlongest, hmem, hread⟩ | ⟨hnone, hread⟩ := readMark_cases c rest
  · constructor
    · rintro (⟨h, hkind⟩ | ⟨-, hno⟩)
      · obtain rfl := h.unique hlongest
        rw [hread, kind_unique hkind hmem]
        rfl
      · exact absurd hlongest.front (hno _ hlongest.holds)
    · rintro rfl
      rw [hread]
      exact .mark hlongest hmem
  · rw [hread]
    constructor
    · rintro (⟨h, -⟩ | ⟨⟨tail, htail⟩, -⟩)
      · exact absurd h.front (hnone _ h.holds)
      · rw [(List.cons.inj htail).1]
    · rintro rfl
      exact .unexpected ⟨rest, rfl⟩ hnone

/-! ## Texts -/

theorem takeWhile_digit_ne_nil {c : Char} (hc : c.isDigit = true) (rest : List Char) :
    (c :: rest).takeWhile Char.isDigit ≠ [] := by
  rw [List.takeWhile_cons_of_pos hc]
  exact List.cons_ne_nil _ _

/-- A text has one word at its beginning, the one that is read there. -/
theorem wordAt_iff {c : Char} {rest : List Char} {w : Word} :
    WordAt (c :: rest) w ↔ w = (Word.read c rest).1.flawless := by
  constructor
  · rintro (⟨h⟩ | ⟨hdigit, h⟩ | ⟨hname, h⟩ | ⟨hquote, hdigit, hname, h⟩)
    · exact stringWord_iff.1 h
    · rw [Word.read, if_neg (plain_of_isDigit hdigit).2.2, hdigit]
      exact (numberWord_iff (takeWhile_digit_ne_nil hdigit rest)).1 h
    · have hstart := isNameStart_iff.2 hname
      obtain ⟨-, -, hquote, hdigit⟩ := plain_of_isNameStart hstart
      rw [Word.read, if_neg hquote, hdigit, hstart]
      exact (nameWord_iff hname).1 h
    · rw [Word.read, if_neg hquote, hdigit, if_neg (fun h => hname (isNameStart_iff.1 h))]
      exact markWord_iff.1 h
  · rintro rfl
    by_cases hquote : c = '"'
    · subst hquote
      exact .string (stringWord_iff.2 rfl)
    · rw [Word.read, if_neg hquote]
      cases hdigit : c.isDigit with
      | true => exact .number hdigit ((numberWord_iff (takeWhile_digit_ne_nil hdigit rest)).2 rfl)
      | false =>
        by_cases hname : IsNameStart c
        · rw [isNameStart_iff.2 hname]
          exact .name hname ((nameWord_iff hname).2 rfl)
        · rw [if_neg fun h => hname (isNameStart_iff.1 h)]
          exact .mark hquote hdigit hname (markWord_iff.2 rfl)

/-- A token but the end of the text is the word at the beginning of some text. -/
theorem wordAt_of_mem_tokens {source file : String} {t : Token}
    (h : t ∈ (lex source file).tokens) (hkind : t.kind ≠ .eof) : ∃ text, WordAt text t.word := by
  obtain ⟨p, w, hw, rfl⟩ := exists_of_mem_lex (mem_ahead_of_mem_tokens h hkind)
  obtain ⟨c, rest, rfl⟩ := exists_read_of_mem_wordsOf hw
  exact ⟨c :: rest, by rw [Word.word_toToken, wordAt_iff]⟩

/-- The words among the parts of a text, each with its offset and without what is wrong with it. -/
def entries (p : Position) (chunks : List Chunk) : List (Int × Word) :=
  (Chunk.placed p chunks).map fun x => (x.1.offset, x.2.flawless)

theorem offset_after (p : Position) (cs : List Char) :
    ((p.after cs).offset : Int) = p.offset + cs.length := by
  rw [Position.after_offset, Int.natCast_add]

theorem isSpace_iff {c : Char} : Chunk.isSpace c = true ↔ c ∈ blanks := by
  simp [Chunk.isSpace, blanks, or_assoc]

theorem startsComment_iff {c : Char} {rest : List Char} :
    Chunk.startsComment c rest = true ↔ ['/', '/'] <+: c :: rest := by
  cases rest <;> simp [Chunk.startsComment, eq_comm (a := '/')]

/-- What is cut off a text are its words. -/
theorem cut_entries (p : Position) (cs : List Char) :
    Cut p.offset cs (entries p (Chunk.ofSource cs)) := by
  fun_induction Chunk.ofSource cs generalizing p with
  | case1 => exact .nil
  | case2 c rest ih =>
    obtain ⟨hspace, hread⟩ | ⟨body, behind, rfl, rfl, hbody, hends, hread⟩ |
      ⟨hspace, hcomment, hread⟩ := Chunk.read_cases c rest
    all_goals rw [hread] at ih ⊢
    · exact .blank (isSpace_iff.1 hspace) (offset_after p [c] ▸ ih (p.after [c]))
    · exact .comment hbody hends (offset_after p _ ▸ ih (p.after _))
    · refine .word ?_ ?_ (wordAt_iff.2 rfl) (Word.read_append c rest) (offset_after p _ ▸ ih _)
      · rw [← isSpace_iff, hspace]
        exact Bool.false_ne_true
      · rw [← startsComment_iff, hcomment]
        exact Bool.false_ne_true

theorem read_blank {c : Char} (h : c ∈ blanks) (cs : List Char) :
    Chunk.read c cs = (.gap [c], cs) := by
  rw [Chunk.read, if_pos (isSpace_iff.2 h)]

theorem read_comment {body behind : List Char} (hbody : '\n' ∉ body)
    (hends : ∀ c ∈ behind.head?, c = '\n') :
    Chunk.read '/' ('/' :: body ++ behind) = (.gap ('/' :: '/' :: body), behind) := by
  have hinside : ∀ c ∈ '/' :: body, decide (c ≠ '\n') = true := by
    intro c hc
    rw [decide_eq_true_iff]
    rintro rfl
    simp [hbody] at hc
  have hbehind : behind.takeWhile (· ≠ '\n') = [] ∧ behind.dropWhile (· ≠ '\n') = behind := by
    cases behind with
    | nil => exact ⟨rfl, rfl⟩
    | cons c behind => simp [hends c rfl]
  have hstarts : Chunk.startsComment '/' ('/' :: body ++ behind) = true := rfl
  rw [Chunk.read, if_neg (by decide), if_pos hstarts,
    List.takeWhile_append_of_pos hinside,
    List.dropWhile_append_of_pos hinside, hbehind.1, hbehind.2, List.append_nil]

theorem read_word {c : Char} {cs rest : List Char} {w : Word} (hblank : c ∉ blanks)
    (hcomment : ¬['/', '/'] <+: c :: cs) (hw : WordAt (c :: cs) w)
    (hrest : w.lexeme ++ rest = c :: cs) :
    Chunk.read c cs = (.word (Word.read c cs).1, rest) := by
  obtain rfl := wordAt_iff.1 hw
  obtain rfl : (Word.read c cs).2 = rest :=
    List.append_cancel_left ((Word.read_append c cs).trans hrest.symm)
  rw [Chunk.read, if_neg fun h => hblank (isSpace_iff.1 h),
    if_neg fun h => hcomment (startsComment_iff.1 h)]

/-- There is no other way to cut a text. -/
theorem entries_of_cut {n : Int} {cs : List Char} {words : List (Int × Word)}
    (h : Cut n cs words) {p : Position} (hp : p.offset = n) :
    words = entries p (Chunk.ofSource cs) := by
  induction h generalizing p with
  | nil =>
    rw [Chunk.ofSource_nil]
    rfl
  | blank hc h ih =>
    rw [Chunk.ofSource_cons, read_blank hc]
    exact ih (hp ▸ offset_after p _)
  | comment hbody hends h ih =>
    rw [List.cons_append, Chunk.ofSource_cons, read_comment hbody hends]
    exact ih (hp ▸ offset_after p _)
  | @word n c cs rest w words hblank hcomment hw hrest h ih =>
    rw [Chunk.ofSource_cons, read_word hblank hcomment hw hrest]
    obtain rfl := wordAt_iff.1 hw
    exact List.cons_eq_cons.2 ⟨congrArg (·, _) hp.symm, ih (hp ▸ offset_after p _)⟩

/-- The tokens of a text are the only way to cut it into words. -/
theorem cut_iff_lex (source file : String) (words : List (Int × Word)) :
    Cut 0 source.toList words ↔
      words = (lex source file).stream.ahead.map fun t => (t.span.start, t.word) := by
  have hentries : (lex source file).stream.ahead.map (fun t => (t.span.start, t.word)) =
      entries .start (Chunk.ofSource source.toList) := by
    rw [entries, lex, List.map_map]
    exact List.map_congr_left fun x _ => congrArg (_, ·) (Word.word_toToken _ _ _)
  rw [hentries]
  refine ⟨fun h => entries_of_cut h rfl, ?_⟩
  rintro rfl
  exact cut_entries .start _

end RuleLang.Lexical
