import RuleLang.Proofs.Token.Words

/-!
Texts and the words they spell. A text that spells words does so in front of every text that ends
words (`Spells`), so that the texts of parts may be put together (`Spells.append`). Here are those
of the smallest parts: fixed words, names and literals.
-/
namespace RuleLang

/-- In front of a text that ends words, the text is read as the given words. -/
def Spells (cs : List Char) (ws : List Word) : Prop :=
  ∀ rest, Ends rest → wordsOf (cs ++ rest) = ws ++ wordsOf rest

theorem spells_nil : Spells [] [] := fun _ _ => rfl

theorem Spells.append {cs ds : List Char} {ws vs : List Word} (h : Spells cs ws)
    (h' : Spells ds vs) (hends : ∀ rest, Ends rest → Ends (ds ++ rest)) :
    Spells (cs ++ ds) (ws ++ vs) := by
  intro rest hrest
  rw [List.append_assoc, h _ (hends rest hrest), h' rest hrest, List.append_assoc]

theorem Spells.space {c : Char} (hc : Chunk.isSpace c = true) {cs : List Char} {ws : List Word}
    (h : Spells cs ws) : Spells (c :: cs) ws := by
  intro rest hrest
  rw [List.cons_append, wordsOf_space hc, h rest hrest]

/-- A text that does not turn an exclamation mark in front of it into another mark. -/
def Opens (cs : List Char) : Prop := ∃ c rest, cs = c :: rest ∧ c ≠ '='

/-! ## Fixed words -/

/-- The words of one spelling: reserved words, operators and punctuation. -/
def Token.Kind.spellings : List (String × Token.Kind) :=
  keywords ++ doubles.map (fun p => (String.ofList [p.1.1, p.1.2], p.2)) ++
    singles.map (fun p => (String.singleton p.1, p.2))

/-- The word of a fixed spelling. -/
def Word.fixed (text : String) : Word :=
  ⟨(Token.Kind.spellings.lookup text).getD .invalid, text.toList, .null, []⟩

/-- A mark of one character in front of a text that does not make it another one. -/
theorem Spells.single {c : Char} {kind : Token.Kind}
    (hkind : Token.Kind.singles.lookup c = some kind) {cs : List Char} {ws : List Word}
    (hcs : ∀ rest, Ends rest → ∀ d ∈ (cs ++ rest).head?,
      (c = '/' → d ≠ '/') ∧ Token.Kind.doubles.lookup (c, d) = none)
    (h : Spells cs ws) : Spells (c :: cs) (⟨kind, [c], .null, []⟩ :: ws) := by
  intro rest hrest
  rw [List.cons_append, wordsOf_single hkind (hcs rest hrest), h rest hrest]
  rfl

/-- The second character of every mark of two is an equal sign. -/
theorem lookup_doubles_of_ne {d : Char} (hd : d ≠ '=') (c : Char) :
    Token.Kind.doubles.lookup (c, d) = none := by
  have hall : ∀ p ∈ Token.Kind.doubles, p.1.2 = '=' := by decide
  rw [List.lookup_eq_none_iff]
  intro p hp
  rw [bne_iff_ne]
  intro h
  exact hd (h ▸ hall p hp : (c, d).2 = '=')

/-- The marks that no other character makes a longer one or a comment. -/
def closedMarks : List Char := ['(', ')', ',', ';', '-']

theorem Spells.mark {c : Char} (hc : c ∈ closedMarks) {cs : List Char} {ws : List Word}
    (h : Spells cs ws) : Spells (c :: cs) (Word.fixed (String.singleton c) :: ws) := by
  have hall : ∀ c ∈ closedMarks, (Token.Kind.singles.lookup c).isSome = true ∧ c ≠ '/' ∧
      (∀ p ∈ Token.Kind.doubles, p.1.1 ≠ c) ∧ Word.fixed (String.singleton c) =
        ⟨(Token.Kind.singles.lookup c).getD .invalid, [c], .null, []⟩ := by
    intro c hc
    simp only [closedMarks, List.mem_cons, List.not_mem_nil, or_false] at hc
    rcases hc with rfl | rfl | rfl | rfl | rfl <;> decide
  obtain ⟨hsome, hslash, hdoubles, hfixed⟩ := hall c hc
  obtain ⟨kind, hkind⟩ := Option.isSome_iff_exists.1 hsome
  rw [hfixed, hkind]
  refine Spells.single hkind (fun rest _ d _ => ⟨fun h => absurd h hslash, ?_⟩) h
  rw [List.lookup_eq_none_iff]
  intro p hp
  rw [bne_iff_ne]
  intro h
  exact hdoubles p hp (h ▸ rfl)

theorem Spells.bang {cs : List Char} {ws : List Word} (h : Spells cs ws) (hopens : Opens cs) :
    Spells ('!' :: cs) (Word.fixed "!" :: ws) := by
  obtain ⟨c, cs, rfl, hc⟩ := hopens
  refine Spells.single (show Token.Kind.singles.lookup '!' = some .bang from rfl) ?_ h
  intro rest _ d hd
  cases hd
  exact ⟨fun h => absurd h (by decide), lookup_doubles_of_ne hc _⟩

theorem spells_single {c : Char} {kind : Token.Kind}
    (hkind : Token.Kind.singles.lookup c = some kind) : Spells [c] [⟨kind, [c], .null, []⟩] :=
  Spells.single hkind
    (fun _ hrest d hd => ⟨fun _ => (hrest d hd).2.2.2, lookup_doubles_of_ne (hrest d hd).2.2.1 c⟩)
    spells_nil

theorem spells_double {c d : Char} {kind : Token.Kind}
    (h : Token.Kind.doubles.lookup (c, d) = some kind) :
    Spells [c, d] [⟨kind, [c, d], .null, []⟩] :=
  fun rest _ => wordsOf_double h rest

/-- Reserved words are read as names are. -/
theorem spells_keyword {text : String} (h : text ∈ Token.Kind.keywords.map Prod.fst) :
    Spells text.toList [Word.fixed text] := by
  have hall : ∀ text ∈ Token.Kind.keywords.map Prod.fst, text.toList ≠ [] ∧
      text.toList.head?.all Word.isNameStart = true ∧
      text.toList.tail.all Word.isNamePart = true ∧
      Word.ofName text.toList = Word.fixed text := by decide
  obtain ⟨hne, hstart, hparts, hfixed⟩ := hall text h
  intro rest hrest
  rw [← hfixed]
  cases hcs : text.toList with
  | nil => exact absurd hcs hne
  | cons c cs =>
    rw [hcs] at hstart hparts
    exact wordsOf_name hstart (List.all_eq_true.1 hparts) hrest

theorem spells_operator {operator : String} (h : operator ∈ operatorStrengths.map Prod.fst) :
    Spells operator.toList [Word.fixed operator] := by
  simp only [operatorStrengths, List.map_cons, List.map_nil, List.mem_cons, List.not_mem_nil,
    or_false] at h
  rcases h with rfl | rfl | rfl | rfl | rfl | rfl | rfl | rfl | rfl | rfl | rfl | rfl
  · exact spells_keyword (by decide)
  · exact spells_keyword (by decide)
  · exact spells_single (show _ = some Token.Kind.less from rfl)
  · exact spells_double (show _ = some Token.Kind.lessEqual from rfl)
  · exact spells_single (show _ = some Token.Kind.greater from rfl)
  · exact spells_double (show _ = some Token.Kind.greaterEqual from rfl)
  · exact spells_double (show _ = some Token.Kind.equalEqual from rfl)
  · exact spells_double (show _ = some Token.Kind.bangEqual from rfl)
  · exact spells_single (show _ = some Token.Kind.plus from rfl)
  · exact spells_single (show _ = some Token.Kind.minus from rfl)
  · exact spells_single (show _ = some Token.Kind.star from rfl)
  · exact spells_single (show _ = some Token.Kind.slash from rfl)

/-! ## Names and literals -/

/-- A text is a name: it begins with a letter or an underscore, goes on with letters, digits and
underscores, and is not reserved. -/
structure IsName (name : String) : Prop where
  chars : ∃ c cs, name.toList = c :: cs ∧ Word.isNameStart c = true ∧
    ∀ d ∈ cs, Word.isNamePart d = true
  unreserved : Token.Kind.keywords.lookup name = none

/-- The word of a name. -/
def Word.name (name : String) : Word := ⟨.ident, name.toList, .null, []⟩

theorem spells_name {name : String} (h : IsName name) : Spells name.toList [Word.name name] := by
  obtain ⟨⟨c, cs, hcs, hstart, hparts⟩, hunreserved⟩ := h
  have hname : Word.ofName name.toList = Word.name name := by
    rw [Word.ofName, String.ofList_toList, hunreserved]
    rfl
  intro rest hrest
  rw [← hname, hcs]
  exact wordsOf_name hstart hparts hrest

namespace Scalar

/-- The values that literals may have: truth values, texts, integers that are not negative and have
no more digits than a literal may have, and finite doubles without a sign. -/
def IsLiteral : Scalar → Prop
  | .null => False
  | .bool _ => True
  | .number (.int n) => 0 ≤ n ∧ (Nat.toDigits 10 n.toNat).length ≤ Word.maxDigits
  | .number (.float x) => ∃ m, x = .finite false m
  | .text _ => True

theorem IsLiteral.isWritable {n : Number} (h : (Scalar.number n).IsLiteral) :
    n.isWritable = true := by
  cases n with
  | float x => rfl
  | int z =>
    obtain ⟨k, rfl⟩ := Int.eq_ofNat_of_zero_le h.1
    exact Bool.not_eq_false _ ▸ fun hlong => Nat.not_lt.2 h.2 (Number.isWritable_int.1 hlong)

theorem IsLiteral.literalText_number {n : Number} (h : (Scalar.number n).IsLiteral) :
    literalText (.number n) = .ok (n.write .source) := if_pos h.isWritable

/-- The word of a literal. -/
def word : Scalar → Word
  | .null => ⟨.invalid, [], .null, []⟩
  | .bool true => Word.fixed "true"
  | .bool false => Word.fixed "false"
  | .number n => ⟨.number, (n.write .source).toList, .number n, []⟩
  | .text s => ⟨.string, '"' :: s.toList.flatMap escapeLiteralChar ++ ['"'], .text s, []⟩

end Scalar

theorem opens_of_digits {cs : List Char} (hne : cs ≠ []) (h : ∀ c ∈ cs, c.isDigit = true)
    (rest : List Char) : Opens (cs ++ rest) := by
  cases cs with
  | nil => exact absurd rfl hne
  | cons c cs =>
    refine ⟨c, cs ++ rest, rfl, ?_⟩
    rintro rfl
    exact absurd (h _ List.mem_cons_self) (by decide)

theorem spells_integer {n : Int} (hn : 0 ≤ n)
    (hlength : (Nat.toDigits 10 n.toNat).length ≤ Word.maxDigits) :
    Spells (Number.write .source (.int n)).toList [Scalar.word (.int n)] ∧
      Opens (Number.write .source (.int n)).toList := by
  obtain ⟨k, rfl⟩ := Int.eq_ofNat_of_zero_le hn
  rw [Int.toNat_natCast] at hlength
  have htext := Number.toList_write_ofNat .source k
  have hdigits := Decimal.isDigit_of_mem_toDigits k
  have hword : Word.ofInteger (Nat.toDigits 10 k) = Scalar.word (.int k) := by
    rw [Word.ofInteger, if_pos hlength, Nat.ofDigitChars_ten_toDigits, Scalar.word, htext]
  rw [htext, ← hword]
  constructor
  · exact fun rest hrest => wordsOf_integer Nat.toDigits_ne_nil hdigits hrest
  · simpa using opens_of_digits Nat.toDigits_ne_nil hdigits []

/-- The text of a finite double reads back as the double. -/
theorem spells_float (m : Magnitude) :
    Spells (Number.write .source (.float (.finite false m))).toList
      [Scalar.word (.float (.finite false m))] ∧
      Opens (Number.write .source (.float (.finite false m))).toList := by
  obtain ⟨whole, fraction, ⟨htext, hw, hf, hwd, hfd⟩, hvalue⟩ := Double.ofDecimal_write m
  have hword : Word.ofDecimal whole fraction = Scalar.word (.float (.finite false m)) := by
    rw [Word.ofDecimal, hvalue, Scalar.word, Number.write, htext]
    rfl
  rw [← hword, Number.write, htext]
  exact ⟨fun rest hrest => wordsOf_decimal hw hf hwd hfd hrest, opens_of_digits hw hwd _⟩

theorem spells_text (s : String) :
    Spells ('"' :: s.toList.flatMap escapeLiteralChar ++ ['"']) [Scalar.word (.text s)] := by
  intro rest _
  simpa [Scalar.word] using wordsOf_string s rest

/-- The text of a literal spells its word. -/
theorem spells_literal {value : Scalar} (h : value.IsLiteral) :
    ∃ text, literalText value = .ok text ∧ Spells text.toList [value.word] ∧
      Opens text.toList := by
  cases value with
  | null => exact h.elim
  | bool b =>
    cases b with
    | true =>
      exact ⟨"true", rfl, spells_keyword (by decide), 't', ['r', 'u', 'e'], by decide, by decide⟩
    | false =>
      exact ⟨"false", rfl, spells_keyword (by decide), 'f', ['a', 'l', 's', 'e'], by decide,
        by decide⟩
  | number n =>
    refine ⟨_, h.literalText_number, ?_⟩
    cases n with
    | int n => exact spells_integer h.1 h.2
    | float x =>
      obtain ⟨m, rfl⟩ := h
      exact spells_float m
  | text s =>
    refine ⟨_, rfl, ?_, ?_⟩
    · rw [String.toList_ofList]
      exact spells_text s
    · rw [String.toList_ofList]
      exact ⟨'"', _, rfl, by decide⟩

/-! ## Printed texts -/

/-- How texts are put together: out of fixed words, names and literals, with blanks and line ends
between them. -/
inductive Printed : List Char → List Word → Prop where
  | nil : Printed [] []
  | append {cs ds : List Char} {ws vs : List Word} (h : Printed cs ws) (h' : Printed ds vs)
      (hends : ∀ rest, Ends rest → Ends (ds ++ rest)) : Printed (cs ++ ds) (ws ++ vs)
  | blank {c : Char} (hc : c = ' ' ∨ c = '\n') {cs : List Char} {ws : List Word}
      (h : Printed cs ws) : Printed (c :: cs) ws
  | mark {c : Char} (hc : c ∈ closedMarks) {cs : List Char} {ws : List Word} (h : Printed cs ws) :
      Printed (c :: cs) (Word.fixed (String.singleton c) :: ws)
  | bang {cs : List Char} {ws : List Word} (h : Printed cs ws) (hopens : Opens cs) :
      Printed ('!' :: cs) (Word.fixed "!" :: ws)
  | operator {operator : String} (h : operator ∈ operatorStrengths.map Prod.fst) :
      Printed operator.toList [Word.fixed operator]
  | keyword {text : String} (h : text ∈ Token.Kind.keywords.map Prod.fst) :
      Printed text.toList [Word.fixed text]
  | equal : Printed ['='] [Word.fixed "="]
  | name {name : String} (h : IsName name) : Printed name.toList [.name name]
  | literal {value : Scalar} {text : String} (h : value.IsLiteral)
      (htext : literalText value = .ok text) : Printed text.toList [value.word]

/-- Texts that are put together in this way spell their words. -/
theorem Printed.spells {cs : List Char} {ws : List Word} (h : Printed cs ws) : Spells cs ws := by
  induction h with
  | nil => exact spells_nil
  | append _ _ hends ih ih' => exact ih.append ih' hends
  | blank hc _ ih => exact ih.space (by obtain rfl | rfl := hc <;> rfl)
  | mark hc _ ih => exact ih.mark hc
  | bang _ hopens ih => exact ih.bang hopens
  | operator h => exact spells_operator h
  | keyword h => exact spells_keyword h
  | equal => exact spells_single (show _ = some Token.Kind.equal from rfl)
  | name h => exact spells_name h
  | literal h htext =>
    obtain ⟨text, htext', hspells, -⟩ := spells_literal h
    obtain rfl := Except.ok.inj (htext.symm.trans htext')
    exact hspells

end RuleLang
