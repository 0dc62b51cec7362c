import RuleLang.Json.Printer
import RuleLang.Proofs.Json.Numerals

/-!
JSON text is read back. Of every value the text is cut into the symbols that the value is made of
(`lexes_write`), whatever the indentation, and from these the machine puts the value together again
(`WellKeyed.reads`), if no object names a field twice. So a text tells which value it is the text of
(`read?_text`).
-/
namespace RuleLang

/-! ## Hexadecimal numbers -/

theorem Text.hexadecimal_succ (width n : Nat) :
    hexadecimal (width + 2) n = hexadecimal (width + 1) (n / 16) ++ [(n % 16).digitChar] := by
  unfold hexadecimal
  rw [Nat.toDigits_eq_if (n := n) (by decide)]
  split
  · rename_i hn
    rw [Nat.div_eq_of_lt hn, Nat.mod_eq_of_lt hn, show Nat.toDigits 16 0 = ['0'] from rfl]
    simp only [List.length_singleton, Nat.reduceSubDiff, ← List.replicate_succ']
  · simp only [List.length_append, List.length_singleton, Nat.reduceSubDiff, List.append_assoc]

theorem Text.hexadecimal_four {n : Nat} (h : n < 0x10000) :
    hexadecimal 4 n = [(n / 0x1000).digitChar, (n / 0x100 % 16).digitChar,
      (n / 0x10 % 16).digitChar, (n % 16).digitChar] := by
  have hlast : hexadecimal 1 (n / 0x1000) = [(n / 0x1000).digitChar] := by
    rw [hexadecimal, Nat.toDigits_of_lt_base (by omega)]
    rfl
  rw [hexadecimal_succ, hexadecimal_succ, hexadecimal_succ, Nat.div_div_eq_div_mul n,
    Nat.div_div_eq_div_mul, hlast]
  rfl

theorem Yaml.hexValue?_digitChar {d : Nat} (h : d < 16) : hexValue? d.digitChar = some d := by
  have hall : ∀ d < 16, hexValue? (Nat.digitChar d) = some d := by decide
  exact hall d h

theorem Yaml.hexNumber?_four {n : Nat} (h : n < 0x10000) :
    hexNumber? [(n / 0x1000).digitChar, (n / 0x100 % 16).digitChar,
      (n / 0x10 % 16).digitChar, (n % 16).digitChar] = some n := by
  have hvalue : ((n / 0x1000 * 16 + n / 0x100 % 16) * 16 + n / 0x10 % 16) * 16 + n % 16 = n := by
    omega
  simp [hexNumber?, hexValue?_digitChar, Nat.mod_lt, show n / 0x1000 < 16 by omega, hvalue]

namespace Json

/-! ## Strings -/

theorem toNat_lt (c : Char) : c.toNat < 0x110000 := by
  have hvalid : c.toNat < 0xD800 ∨ 0xDFFF < c.toNat ∧ c.toNat < 0x110000 := c.valid
  omega

/-- The units of a character. -/
def unitsOf (c : Char) : List Nat :=
  if c.toNat < 0x10000 then [c.toNat]
  else [0xD800 + (c.toNat - 0x10000) / 0x400, 0xDC00 + (c.toNat - 0x10000) % 0x400]

theorem readUnits_unitEscape {n : Nat} (h : n < 0x10000) (rest : List Char) :
    readUnits (unitEscape n ++ rest) = inFront [n] (readUnits rest) := by
  rw [unitEscape, Text.hexadecimal_four h]
  simp only [List.cons_append, List.nil_append, readUnits, Yaml.hexNumber?_four h, Option.bind_some]
  rfl

theorem readUnits_short {c d : Char} (h : escapes.lookup c = some d) (rest : List Char) :
    readUnits ('\\' :: c :: rest) = inFront [d.toNat] (readUnits rest) := by
  rw [readUnits.eq_def]
  dsimp only
  rw [if_neg (by decide), if_pos rfl]
  split
  · rename_i heq
    obtain rfl := (List.cons_eq_cons.1 heq).1
    cases h
  · rename_i heq
    obtain ⟨rfl, rfl⟩ := List.cons_eq_cons.1 heq
    rw [h, Option.bind_some]
  · contradiction

theorem readUnits_raw {c : Char} (hquote : c ≠ '"') (hbackslash : c ≠ '\\') (h : 0x20 ≤ c.toNat)
    (rest : List Char) : readUnits (c :: rest) = inFront [c.toNat] (readUnits rest) := by
  rw [readUnits.eq_def]
  dsimp only
  rw [if_neg hquote, if_neg hbackslash, if_neg (by omega)]

theorem inFront_inFront (units more : List Nat) (read : Option (List Nat × List Char)) :
    inFront units (inFront more read) = inFront (units ++ more) read := by
  cases read with
  | none => rfl
  | some read => simp only [inFront, Option.map_some, List.append_assoc]

/-- An escaped character is read as its units. -/
theorem readUnits_escapeChar (c : Char) (rest : List Char) :
    readUnits (escapeChar c ++ rest) = inFront (unitsOf c) (readUnits rest) := by
  unfold escapeChar
  split
  · rename_i hc
    obtain rfl | rfl := hc <;> exact readUnits_short rfl rest
  · rename_i hquoted
    obtain ⟨hquote, hbackslash⟩ := not_or.1 hquoted
    -- the short forms
    iterate 5
      split
      · rename_i hc
        subst hc
        exact readUnits_short rfl rest
    split
    · rename_i hvisible
      rw [unitsOf, if_pos (by omega)]
      exact readUnits_raw hquote hbackslash hvisible.1 rest
    · split
      · rename_i hunit
        rw [unitsOf, if_pos hunit]
        exact readUnits_unitEscape hunit rest
      · rename_i hunit
        have hlt : c.toNat < 0x110000 := toNat_lt c
        rw [unitsOf, if_neg hunit, List.append_assoc, readUnits_unitEscape (by omega),
          readUnits_unitEscape (by omega), inFront_inFront]
        rfl

theorem characters?_unitsOf (c : Char) (units : List Nat) :
    characters? (unitsOf c ++ units) = (characters? units).map (c :: ·) := by
  have hvalid : c.toNat < 0xD800 ∨ 0xDFFF < c.toNat ∧ c.toNat < 0x110000 := c.valid
  unfold unitsOf
  split
  · rw [List.singleton_append, characters?.eq_def]
    dsimp only
    rw [if_neg (by omega), if_neg (by omega), Char.ofNat_toNat]
  · have hnumber : 0x10000 + (0xD800 + (c.toNat - 0x10000) / 0x400 - 0xD800) * 0x400 +
        (0xDC00 + (c.toNat - 0x10000) % 0x400 - 0xDC00) = c.toNat := by
      omega
    rw [List.cons_append, List.singleton_append, characters?.eq_def]
    dsimp only
    rw [if_pos (by omega), if_pos (by omega), hnumber, Char.ofNat_toNat]

/-- The units of a character are read as the character. -/
theorem readUnits_flatMap (cs rest : List Char) :
    readUnits (cs.flatMap escapeChar ++ '"' :: rest) = some (cs.flatMap unitsOf, rest) := by
  induction cs with
  | nil =>
    rw [List.flatMap_nil, List.nil_append, readUnits.eq_def]
    rfl
  | cons c cs ih =>
    rw [List.flatMap_cons, List.append_assoc, readUnits_escapeChar, ih]
    rfl

theorem characters?_flatMap (cs : List Char) : characters? (cs.flatMap unitsOf) = some cs := by
  induction cs with
  | nil => rfl
  | cons c cs ih => rw [List.flatMap_cons, characters?_unitsOf, ih, Option.map_some]

theorem readString_write (s : String) (rest : List Char) :
    readString (s.toList.flatMap escapeChar ++ '"' :: rest) = some (.string s, rest) := by
  rw [readString, readUnits_flatMap]
  simp only [Option.bind_eq_bind, Option.bind_some, characters?_flatMap, String.ofList_toList]
  rfl

/-! ## Symbols -/

theorem symbols?_of_read {c : Char} {rest behind : List Char} {s : Symbol}
    (hblank : isBlank c = false) (h : readSymbol c rest = some (s, behind)) :
    symbols? (c :: rest) = (symbols? behind).map (s :: ·) := by
  rw [symbols?, if_neg (Bool.eq_false_iff.1 hblank)]
  split
  · rename_i hnone
    rw [h] at hnone
    cases hnone
  · rename_i hsome
    rw [h] at hsome
    obtain ⟨rfl, rfl⟩ := Prod.mk.inj (Option.some.inj hsome)
    rfl

/-- In front of the rest, the text is cut into the symbols. -/
def CutsBefore (rest text : List Char) (symbols : List Symbol) : Prop :=
  symbols? (text ++ rest) = (symbols? rest).map (symbols ++ ·)

theorem CutsBefore.append {rest text text' : List Char} {symbols symbols' : List Symbol}
    (h : CutsBefore (text' ++ rest) text symbols) (h' : CutsBefore rest text' symbols') :
    CutsBefore rest (text ++ text') (symbols ++ symbols') := by
  rw [CutsBefore, List.append_assoc, h, h', Option.map_map]
  exact congrArg (Option.map · _) (funext fun more => (List.append_assoc ..).symm)

theorem cutsBefore_mark {c : Char} {s : Symbol} (hblank : isBlank c = false)
    (h : marks.lookup c = some s) (rest : List Char) : CutsBefore rest [c] [s] :=
  symbols?_of_read hblank (by rw [readSymbol, h]; rfl)

theorem cutsBefore_blanks {cs : List Char} (h : ∀ c ∈ cs, isBlank c = true) (rest : List Char) :
    CutsBefore rest cs [] := by
  induction cs with
  | nil => exact Option.map_id'.symm
  | cons c cs ih =>
    obtain ⟨hc, hcs⟩ := List.forall_mem_cons.1 h
    rw [CutsBefore, List.cons_append, symbols?, if_pos hc]
    exact ih hcs

/-- The text is cut into the symbols, whatever follows it inside of brackets. -/
def Lexes (text : List Char) (symbols : List Symbol) : Prop :=
  ∀ rest, Delimits rest → CutsBefore rest text symbols

/-- A text in which a number is read begins with a digit or a sign. -/
theorem first_of_readNumber {c : Char} {rest : List Char} {r : Json × List Char}
    (h : readNumber (c :: rest) = some r) : c = '-' ∨ c.isDigit = true := by
  by_cases hc : c = '-'
  · exact .inl hc
  · refine .inr ?_
    by_contra hdigit
    have hnone : readDigits (c :: rest) = none := by
      rw [readDigits, if_pos (by rw [List.takeWhile_cons_of_neg hdigit])]
    simp [readNumber, readWhole, hc, hnone] at h

theorem readSymbol_of_number {c : Char} {rest behind : List Char} {v : Json}
    (h : readNumber (c :: rest) = some (v, behind)) :
    isBlank c = false ∧ readSymbol c rest = some (.scalar v, behind) := by
  have hmark : isBlank c = false ∧ marks.lookup c = none ∧ c ≠ '"' := by
    obtain rfl | hdigit := first_of_readNumber h
    · decide
    · have hne {d : Char} (hd : d.isDigit = false) : c ≠ d := by
        rintro rfl
        exact Bool.eq_false_iff.1 hd hdigit
      have hmarks : ∀ p ∈ marks, p.1.isDigit = false := by
        simp only [marks, List.forall_mem_cons]
        decide
      refine ⟨?_, List.lookup_eq_none_iff.2 fun p hp => by simpa using hne (hmarks p hp),
        hne (by decide)⟩
      simp [isBlank, hne (d := ' ') rfl, hne (d := '\t') rfl, hne (d := '\n') rfl,
        hne (d := '\r') rfl]
  obtain ⟨hblank, hmark, hquote⟩ := hmark
  refine ⟨hblank, ?_⟩
  rw [readSymbol, hmark, readScalar, if_neg hquote, h]
  rfl

theorem lexes_number {text : List Char} {v : Json}
    (h : ∀ rest, Delimits rest → readNumber (text ++ rest) = some (v, rest)) :
    Lexes text [.scalar v] := by
  intro rest hrest
  have hread := h rest hrest
  rw [CutsBefore]
  cases htext : text ++ rest with
  | nil =>
    rw [htext] at hread
    cases hread
  | cons c more =>
    rw [htext] at hread
    obtain ⟨hblank, hsymbol⟩ := readSymbol_of_number hread
    exact symbols?_of_read hblank hsymbol

/-- A word is read in front of any text. -/
theorem lexes_word (c : Char) (text : List Char) {v : Json} (hblank : isBlank c = false)
    (h : ∀ rest, readSymbol c (text ++ rest) = some (.scalar v, rest)) :
    Lexes (c :: text) [.scalar v] :=
  fun rest _ => symbols?_of_read hblank (h rest)

theorem lexes_writeNumber (n : Number) : Lexes (n.write .json).toList [.scalar (.number n)] := by
  match n with
  | .int n => exact lexes_number fun rest hrest => readNumber_int hrest n
  | .float .nan => exact lexes_word 'N' ['a', 'N'] rfl fun rest => rfl
  | .float (.infinite false) =>
    exact lexes_word 'I' "nfinity".toList rfl fun rest => rfl
  | .float (.infinite true) =>
    exact lexes_word '-' "Infinity".toList rfl fun rest => rfl
  | .float (.finite negative m) =>
    exact lexes_number fun rest hrest => readNumber_finite hrest negative m

theorem cutsBefore_writeString (s : String) (rest : List Char) :
    CutsBefore rest (writeString s) [.scalar (.string s)] := by
  have htext : writeString s ++ rest = '"' :: (s.toList.flatMap escapeChar ++ '"' :: rest) := by
    simp [writeString]
  rw [CutsBefore, htext]
  refine symbols?_of_read rfl ?_
  rw [readSymbol, show marks.lookup '"' = none from rfl, readScalar, if_pos rfl, readString_write]
  rfl

section Layout

variable (indent : Option Nat) (level : Nat)

theorem isBlank_lineBreak : ∀ c ∈ lineBreak indent level, isBlank c = true := by
  cases indent with
  | none => exact List.forall_mem_nil _
  | some width =>
    refine List.forall_mem_cons.2 ⟨rfl, fun c hc => ?_⟩
    rw [List.eq_of_mem_replicate hc]
    rfl

theorem cutsBefore_separator (rest : List Char) :
    CutsBefore rest (separator indent level) [.comma] := by
  have hblanks (cs : List Char) (h : ∀ c ∈ cs, isBlank c = true) :
      CutsBefore rest (',' :: cs) [.comma] :=
    (cutsBefore_mark rfl rfl _).append (cutsBefore_blanks h rest)
  cases indent with
  | none => exact hblanks [' '] (List.forall_mem_singleton.2 rfl)
  | some width => exact hblanks _ (isBlank_lineBreak (some width) level)

theorem delimits_separator (rest : List Char) : Delimits (separator indent level ++ rest) := by
  cases indent <;> exact fun c hc => .inl (Option.some.inj hc).symm

theorem delimits_lineBreak {rest : List Char} (h : Delimits rest) :
    Delimits (lineBreak indent level ++ rest) := by
  cases indent with
  | none => exact h
  | some width => exact fun c hc => .inr (.inr (.inr (Option.some.inj hc).symm))

theorem lexes_intercalate {texts : List (List Char)} {symbols : List (List Symbol)}
    (h : List.Forall₂ Lexes texts symbols) :
    Lexes ((separator indent level).intercalate texts) ([.comma].intercalate symbols) := by
  induction h with
  | nil => exact fun rest _ => cutsBefore_blanks (List.forall_mem_nil _) rest
  | cons htext htexts ih =>
    intro rest hrest
    cases htexts with
    | nil =>
      rw [List.intercalate_singleton, List.intercalate_singleton]
      exact htext rest hrest
    | cons =>
      rw [List.intercalate_cons_cons, List.intercalate_cons_cons, List.append_assoc,
        List.append_assoc]
      refine (htext _ ?_).append ((cutsBefore_separator indent level _).append (ih rest hrest))
      rw [List.append_assoc]
      exact delimits_separator indent level _

theorem lexes_enclose {left right : Char} {l r : Symbol} (hleft : marks.lookup left = some l)
    (hright : marks.lookup right = some r) (hblank : isBlank left = false ∧ isBlank right = false)
    (hend : right = ']' ∨ right = '}') {texts : List (List Char)} {symbols : List (List Symbol)}
    (h : List.Forall₂ Lexes texts symbols) :
    Lexes (enclose indent level left right texts) ([l] ++ [.comma].intercalate symbols ++ [r]) := by
  intro rest hrest
  have hdelimits : Delimits ([right] ++ rest) :=
    fun c hc => Option.some.inj hc ▸ .inr (hend.imp_right .inl)
  have hbegin := cutsBefore_mark hblank.1 hleft
  have hclose := cutsBefore_mark hblank.2 hright rest
  unfold enclose
  cases h with
  | nil => exact (hbegin _).append hclose
  | cons htext htexts =>
    have hitems := lexes_intercalate indent (level + 1) (.cons htext htexts)
    have hbreak (level : Nat) := cutsBefore_blanks (isBlank_lineBreak indent level)
    have hlines := ((hbegin _).append (hbreak (level + 1) _)).append
      (hitems _ (delimits_lineBreak indent level hdelimits))
    have hall := (hlines.append (hbreak level _)).append hclose
    rwa [List.append_nil, List.append_nil] at hall

end Layout

/-- The symbols that a value is made of. -/
def symbols : Json → List Symbol
  | .array items => [.leftBracket] ++ [.comma].intercalate (symbolsOfItems items) ++ [.rightBracket]
  | .object fields => [.leftBrace] ++ [.comma].intercalate (symbolsOfFields fields) ++ [.rightBrace]
  | v => [.scalar v]
where
  symbolsOfItems : List Json → List (List Symbol)
    | [] => []
    | v :: items => symbols v :: symbolsOfItems items
  symbolsOfFields : List (String × Json) → List (List Symbol)
    | [] => []
    | (name, v) :: fields =>
      (.scalar (.string name) :: .colon :: symbols v) :: symbolsOfFields fields

section Values

variable (indent : Option Nat)

mutual

/-- The text of a value is cut into the symbols that the value is made of. -/
theorem lexes_write (level : Nat) (v : Json) : Lexes (write indent level v) v.symbols := by
  cases v with
  | null => exact lexes_word 'n' "ull".toList rfl fun rest => rfl
  | bool b =>
    cases b with
    | true => exact lexes_word 't' "rue".toList rfl fun rest => rfl
    | false => exact lexes_word 'f' "alse".toList rfl fun rest => rfl
  | number n => exact lexes_writeNumber n
  | string s => exact fun rest _ => cutsBefore_writeString s rest
  | array items =>
    exact lexes_enclose indent level rfl rfl ⟨rfl, rfl⟩ (.inl rfl) (lexes_writeItems level items)
  | object fields =>
    exact lexes_enclose indent level rfl rfl ⟨rfl, rfl⟩ (.inr rfl) (lexes_writeFields level fields)

theorem lexes_writeItems (level : Nat) (items : List Json) :
    List.Forall₂ Lexes (write.writeItems indent level items) (symbols.symbolsOfItems items) := by
  cases items with
  | nil => exact .nil
  | cons v items => exact .cons (lexes_write (level + 1) v) (lexes_writeItems level items)

theorem lexes_writeFields (level : Nat) (fields : List (String × Json)) :
    List.Forall₂ Lexes (write.writeFields indent level fields)
      (symbols.symbolsOfFields fields) := by
  cases fields with
  | nil => exact .nil
  | cons field fields =>
    obtain ⟨name, v⟩ := field
    refine .cons (fun rest hrest => ?_) (lexes_writeFields level fields)
    have hcolon : CutsBefore (write indent (level + 1) v ++ rest) [':', ' '] [.colon] :=
      (cutsBefore_mark rfl rfl _).append
        (cutsBefore_blanks (List.forall_mem_singleton.2 rfl) _)
    exact (cutsBefore_writeString name _).append
      (hcolon.append (lexes_write (level + 1) v rest hrest))

end

end Values

/-! ## Values -/

/-- No object in the value names a field twice. -/
inductive WellKeyed : Json → Prop
  | scalar (s : Scalar) : WellKeyed (.ofScalar s)
  | array {items : List Json} (h : ∀ v ∈ items, WellKeyed v) : WellKeyed (.array items)
  | object {fields : List (String × Json)} (distinct : (fields.map Prod.fst).Nodup)
      (h : ∀ field ∈ fields, WellKeyed field.2) : WellKeyed (.object fields)

/-- A field with a new name comes last. -/
theorem put_of_not_mem {name : String} {fields : List (String × Json)} (v : Json)
    (h : name ∉ fields.map Prod.fst) : put name v fields = fields ++ [(name, v)] := by
  induction fields with
  | nil => rfl
  | cons field fields ih =>
    rw [List.map_cons, List.mem_cons, not_or] at h
    rw [put, if_neg (Ne.symm h.1), ih h.2, List.cons_append]

/-- The machine goes from one reading to the other one through the symbols. -/
def Runs (symbols : List Symbol) (r r' : Reading) : Prop := symbols.foldlM step r = some r'

theorem Runs.append {symbols symbols' : List Symbol} {r r' r'' : Reading} (h : Runs symbols r r')
    (h' : Runs symbols' r' r'') : Runs (symbols ++ symbols') r r'' := by
  rw [Runs, List.foldlM_append, h]
  exact h'

/-- The value is put together from its symbols, wherever it stands. -/
def Reads (v : Json) : Prop := ∀ outer, Runs v.symbols (.value outer) (.behind v outer)

theorem runs_items {items : List Json} (hne : items ≠ []) (h : ∀ v ∈ items, Reads v)
    (before : List Json) (outer : List Frame) :
    Runs ([.comma].intercalate (symbols.symbolsOfItems items) ++ [.rightBracket])
      (.value (.array before :: outer)) (.behind (.array (before ++ items)) outer) := by
  induction items generalizing before with
  | nil => exact absurd rfl hne
  | cons v items ih =>
    obtain ⟨hv, hitems⟩ := List.forall_mem_cons.1 h
    cases items with
    | nil =>
      rw [symbols.symbolsOfItems, symbols.symbolsOfItems, List.intercalate_singleton]
      exact (hv _).append rfl
    | cons w items =>
      have hmore := ih (List.cons_ne_nil _ _) hitems (before ++ [v])
      rw [List.append_assoc] at hmore
      rw [symbols.symbolsOfItems, symbols.symbolsOfItems, List.intercalate_cons_cons,
        List.append_assoc, List.append_assoc]
      exact (hv _).append (.append rfl hmore)

theorem exists_intercalate {α : Type} (separator text : List α) (texts : List (List α)) :
    ∃ behind, separator.intercalate (text :: texts) = text ++ behind := by
  cases texts with
  | nil => exact ⟨[], by rw [List.intercalate_singleton, List.append_nil]⟩
  | cons => exact ⟨_, by rw [List.intercalate_cons_cons, List.append_assoc]⟩

theorem reads_array {items : List Json} (h : ∀ v ∈ items, Reads v) : Reads (.array items) := by
  intro outer
  have hbegin : Runs [.leftBracket] (.value outer) (.firstItem outer) := rfl
  rw [symbols, List.append_assoc]
  refine hbegin.append ?_
  cases items with
  | nil => rfl
  | cons v items =>
    have hitems := runs_items (List.cons_ne_nil _ _) h [] outer
    obtain ⟨behind, hbehind⟩ :=
      exists_intercalate [.comma] v.symbols (symbols.symbolsOfItems items)
    rw [symbols.symbolsOfItems, hbehind] at hitems ⊢
    -- the first item is read as any value
    cases v <;> exact hitems

theorem runs_fields {fields : List (String × Json)} (hne : fields ≠ [])
    (h : ∀ field ∈ fields, Reads field.2) (before : List (String × Json))
    (distinct : ((before ++ fields).map Prod.fst).Nodup) (outer : List Frame) :
    Runs ([.comma].intercalate (symbols.symbolsOfFields fields) ++ [.rightBrace])
      (.field before outer) (.behind (.object (before ++ fields)) outer) := by
  induction fields generalizing before with
  | nil => exact absurd rfl hne
  | cons field fields ih =>
    obtain ⟨name, v⟩ := field
    obtain ⟨hv, hfields⟩ := List.forall_mem_cons.1 h
    have hmoved : before ++ (name, v) :: fields = before ++ [(name, v)] ++ fields := by simp
    have hname : name ∉ before.map Prod.fst := by
      rw [List.map_append, List.nodup_append] at distinct
      exact fun hmem => distinct.2.2 name hmem name List.mem_cons_self rfl
    have hput := put_of_not_mem v hname
    have hfield : Runs (.scalar (.string name) :: .colon :: v.symbols) (.field before outer)
        (.behind v (.object before name :: outer)) := hv _
    cases fields with
    | nil =>
      rw [symbols.symbolsOfFields, symbols.symbolsOfFields, List.intercalate_singleton, ← hput]
      exact hfield.append rfl
    | cons next fields =>
      rw [hmoved] at distinct ⊢
      have hmore := ih (List.cons_ne_nil _ _) hfields _ distinct
      have hcomma : Runs [.comma] (.behind v (.object before name :: outer))
          (.field (before ++ [(name, v)]) outer) := congrArg (some <| Reading.field · outer) hput
      obtain ⟨name', w⟩ := next
      rw [symbols.symbolsOfFields, symbols.symbolsOfFields, List.intercalate_cons_cons,
        List.append_assoc, List.append_assoc]
      exact hfield.append (hcomma.append hmore)

theorem reads_object {fields : List (String × Json)} (h : ∀ field ∈ fields, Reads field.2)
    (distinct : (fields.map Prod.fst).Nodup) : Reads (.object fields) := by
  intro outer
  have hbegin : Runs [.leftBrace] (.value outer) (.firstField outer) := rfl
  rw [symbols, List.append_assoc]
  refine hbegin.append ?_
  cases fields with
  | nil => rfl
  | cons field fields =>
    have hfields := runs_fields (List.cons_ne_nil _ _) h [] distinct outer
    obtain ⟨name, v⟩ := field
    obtain ⟨behind, hbehind⟩ := exists_intercalate [.comma]
      (.scalar (.string name) :: .colon :: v.symbols) (symbols.symbolsOfFields fields)
    rw [symbols.symbolsOfFields, hbehind] at hfields ⊢
    exact hfields

theorem WellKeyed.reads {v : Json} (h : v.WellKeyed) : v.Reads := by
  induction h with
  | scalar s => cases s <;> exact fun outer => rfl
  | array _ ih => exact reads_array ih
  | object distinct _ ih => exact reads_object ih distinct

/-- A JSON text is read as the value that it is the text of. -/
theorem read?_text {v : Json} (h : v.WellKeyed) (indent : Option Int) :
    read? (v.text indent) = some v := by
  have hsymbols : symbols? (write (indent.map Int.toNat) 0 v) = some v.symbols := by
    have hcut := lexes_write (indent.map Int.toNat) 0 v [] nofun
    rw [CutsBefore, List.append_nil] at hcut
    rw [hcut, symbols?]
    exact congrArg some (List.append_nil _)
  have hrun : v.symbols.foldlM step (.value []) = some (.behind v []) := h.reads []
  rw [read?, text, String.toList_ofList, hsymbols]
  simp only [Option.bind_eq_bind, Option.bind_some, hrun]
  rfl

end Json

end RuleLang
