import RuleLang.Proofs.Token.Spelling

/-!
What the words of a text are. A name is not reserved, a literal has a value that can be written, a
fixed word has the spelling of its kind, and no word marks the end of the text
(`wellMade_of_mem_wordsOf`).
-/
namespace RuleLang

/-- A word is what its kind says. -/
structure Word.WellMade (w : Word) : Prop where
  notEnd : w.kind ≠ .eof
  name : w.kind = .ident → IsName (String.ofList w.lexeme)
  literal : w.kind = .number ∨ w.kind = .string → w.value.IsLiteral
  fixed : w.kind ∈ Token.Kind.spellings.map Prod.snd →
    (String.ofList w.lexeme, w.kind) ∈ Token.Kind.spellings

namespace Word

theorem wellMade_of_invalid {w : Word} (h : w.kind = .invalid) : w.WellMade where
  notEnd := by rw [h]; decide
  name hname := by rw [h] at hname; cases hname
  literal hliteral := by simp [h] at hliteral
  fixed hfixed := absurd (h ▸ hfixed) (by decide : Token.Kind.invalid ∉ _)

theorem wellMade_of_spelling {w : Word}
    (h : (String.ofList w.lexeme, w.kind) ∈ Token.Kind.spellings) : w.WellMade := by
  have hall : ∀ p ∈ Token.Kind.spellings,
      p.2 ≠ .eof ∧ p.2 ≠ .ident ∧ p.2 ≠ .number ∧ p.2 ≠ .string := by decide
  obtain ⟨heof, hident, hnumber, hstring⟩ := hall _ h
  exact {
    notEnd := heof
    name := fun hname => absurd hname hident
    literal := fun hliteral => (hliteral.elim hnumber hstring).elim
    fixed := fun _ => h }

theorem wellMade_of_literal {w : Word} (hkind : w.kind = .number ∨ w.kind = .string)
    (hvalue : w.value.IsLiteral) : w.WellMade := by
  have hne : w.kind ≠ .eof ∧ w.kind ≠ .ident ∧ w.kind ∉ Token.Kind.spellings.map Prod.snd := by
    rcases hkind with h | h <;> rw [h] <;> decide
  exact {
    notEnd := hne.1
    name := fun hname => absurd hname hne.2.1
    literal := fun _ => hvalue
    fixed := fun hfixed => absurd hfixed hne.2.2 }

/-! ## Numbers -/

theorem ofDigitChars_lt {cs : List Char} (h : ∀ c ∈ cs, c.isDigit = true) (init : Nat) :
    Nat.ofDigitChars 10 cs init < tenTo cs.length * (init + 1) := by
  induction cs generalizing init with
  | nil => simp [tenTo]
  | cons c cs ih =>
    obtain ⟨hc, hcs⟩ := List.forall_mem_cons.1 h
    have hnext : 10 * init + (c.toNat - '0'.toNat) + 1 ≤ 10 * (init + 1) := by
      have hdigit := toNat_of_isDigit hc
      have : '0'.toNat = 48 := rfl
      omega
    rw [Nat.ofDigitChars_cons]
    calc Nat.ofDigitChars 10 cs (10 * init + (c.toNat - '0'.toNat))
        < tenTo cs.length * (10 * init + (c.toNat - '0'.toNat) + 1) := ih hcs _
      _ ≤ tenTo cs.length * (10 * (init + 1)) := Nat.mul_le_mul_left _ hnext
      _ = tenTo (c :: cs).length * (init + 1) := by
        rw [← Nat.mul_assoc]
        rfl

theorem length_toDigits_le {n k : Nat} (hk : 0 < k) (h : n < tenTo k) :
    (Nat.toDigits 10 n).length ≤ k :=
  (Nat.length_toDigits_le_iff (by decide) hk).2 h

theorem wellMade_ofInteger {digits : List Char} (h : ∀ c ∈ digits, c.isDigit = true) :
    (ofInteger digits).WellMade := by
  unfold ofInteger
  split
  · rename_i hlength
    have hvalue : Nat.ofDigitChars 10 digits 0 < tenTo digits.length := by
      simpa using ofDigitChars_lt h 0
    have hlt : Nat.ofDigitChars 10 digits 0 < tenTo maxDigits :=
      Nat.lt_of_lt_of_le hvalue (tenTo_mono hlength)
    have hpos : 0 < maxDigits := by decide
    refine wellMade_of_literal (.inl rfl) ⟨Int.natCast_nonneg _, ?_⟩
    rw [Int.toNat_natCast]
    exact length_toDigits_le hpos hlt
  · exact wellMade_of_invalid rfl

theorem wellMade_ofDecimal (whole fraction : List Char) : (ofDecimal whole fraction).WellMade := by
  unfold ofDecimal Double.ofDecimal
  split
  · rename_i m _
    exact wellMade_of_literal (.inl rfl) ⟨m, rfl⟩
  · exact wellMade_of_invalid rfl

theorem wellMade_readNumber (text : List Char) : (readNumber text).1.WellMade := by
  have hdigits : ∀ c ∈ text.takeWhile Char.isDigit, c.isDigit = true :=
    List.all_eq_true.1 List.all_takeWhile
  unfold readNumber
  split
  · dsimp only
    split
    · exact wellMade_of_invalid rfl
    · exact wellMade_ofDecimal _ _
  · exact wellMade_ofInteger hdigits

/-! ## Strings, names and marks -/

theorem wellMade_readString (body : List Char) : (readString body).1.WellMade := by
  unfold readString
  split
  · exact wellMade_of_literal (.inr rfl) trivial
  · exact wellMade_of_invalid rfl

theorem wellMade_ofName {c : Char} {cs : List Char} (hc : isNameStart c = true)
    (hcs : ∀ d ∈ cs, isNamePart d = true) : (ofName (c :: cs)).WellMade := by
  unfold ofName
  split
  · rename_i kind hkind
    apply wellMade_of_spelling
    exact List.mem_append_left _ (List.mem_append_left _ (mem_of_lookup hkind))
  · rename_i hnone
    exact {
      notEnd := by simp
      name := fun _ => ⟨⟨c, cs, String.toList_ofList, hc, hcs⟩, hnone⟩
      literal := by simp
      fixed := fun h => absurd h (by decide : Token.Kind.ident ∉ _) }

theorem wellMade_readMark (c : Char) (rest : List Char) : (readMark c rest).1.WellMade := by
  unfold readMark
  split
  · rename_i kind hkind
    obtain ⟨d, hd, hlookup⟩ := Option.bind_eq_some_iff.1 hkind
    obtain ⟨rest, rfl⟩ := List.head?_eq_some_iff.1 hd
    refine wellMade_of_spelling (List.mem_append_left _ (List.mem_append_right _ ?_))
    exact List.mem_map_of_mem (f := fun p => (String.ofList [p.1.1, p.1.2], p.2))
      (mem_of_lookup hlookup)
  · split
    · rename_i kind hkind
      refine wellMade_of_spelling (List.mem_append_right _ ?_)
      exact List.mem_map_of_mem (f := fun p => (String.singleton p.1, p.2)) (mem_of_lookup hkind)
    · exact wellMade_of_invalid rfl

theorem wellMade_read (c : Char) (rest : List Char) : (read c rest).1.WellMade := by
  unfold read
  split
  · exact wellMade_readString rest
  · split
    · exact wellMade_readNumber _
    · split
      · rename_i hstart
        have hpart := isNamePart_of_isNameStart hstart
        rw [readName, List.takeWhile_cons_of_pos hpart]
        exact wellMade_ofName hstart (List.all_eq_true.1 List.all_takeWhile)
      · exact wellMade_readMark c rest

end Word

/-- Every word of a text is what its kind says. -/
theorem wellMade_of_mem_wordsOf {cs : List Char} {w : Word} (h : w ∈ wordsOf cs) : w.WellMade := by
  obtain ⟨c, rest, rfl⟩ := exists_read_of_mem_wordsOf h
  exact Word.wellMade_read c rest

/-- Names are the texts that are a single word, which is a name. -/
theorem isName_iff {name : String} : IsName name ↔ wordsOf name.toList = [.name name] := by
  constructor
  · intro h
    simpa using spells_name h [] ends_nil
  · intro h
    have hmem : Word.name name ∈ wordsOf name.toList := h ▸ List.mem_singleton_self _
    have hmade : (Word.name name).WellMade := wellMade_of_mem_wordsOf hmem
    simpa [Word.name] using hmade.name rfl

end RuleLang
