import RuleLang.Decimal.Reading
import RuleLang.Proofs.Decimal.Rounding
import RuleLang.Proofs.Json.Numerals
import RuleLang.Proofs.Token.Lexing

/-!
The two notations of a double. Without an exponent or with one, the text of a finite double denotes
the same decimal number, to the last digit: the positional form shifts the digits and rounds nothing
(`positional_exact`). In source text the positional form of a double without a sign is a single
token with the double as its value.
-/
namespace RuleLang

namespace Decimal

/-- Decimals of one number have one value. -/
theorem SameValue.value_eq {d e : Decimal} (h : d.SameValue e) : d.value = e.value := by
  have hden (d : Decimal) : (d.denominator : ℚ) ≠ 0 := Nat.cast_ne_zero.2 d.denominator_pos.ne'
  rw [value_eq_div, value_eq_div, div_eq_div_iff (hden d) (hden e)]
  exact_mod_cast h

/-- The number that a written decimal denotes, with a minus sign in front of it or without one. -/
def denoted? : List Char → Option ℚ
  | '-' :: rest => (Double.readDecimal? rest).map fun d => -d.value
  | text => (Double.readDecimal? text).map value

/-! ## Reading exact decimals -/

theorem readDecimal?_point {whole fraction : List Char} (hwhole : whole ≠ [])
    (hw : ∀ c ∈ whole, c.isDigit = true) (hf : ∀ c ∈ fraction, c.isDigit = true) :
    Double.readDecimal? (whole ++ '.' :: fraction) = some (Word.decimal whole fraction) := by
  have hpoint : ∀ c ∈ ('.' :: fraction).head?, c.isDigit = false :=
    fun c hc => Option.some.inj hc ▸ rfl
  obtain ⟨htake, hdrop⟩ := takeWhile_append_of_stop hw hpoint
  have hend : ∀ c ∈ ([] : List Char).head?, c.isDigit = false := nofun
  obtain ⟨htake', hdrop'⟩ := takeWhile_append_of_stop hf hend
  rw [List.append_nil] at htake' hdrop'
  simp only [Double.readDecimal?, htake, hdrop, htake', hdrop']
  simp [hwhole, Word.decimal]

/-- An exponent is read with its sign. -/
theorem readExponent?_signed (e : Int) {power : List Char} (hne : power ≠ [])
    (hdigits : ∀ c ∈ power, c.isDigit = true) (hvalue : Nat.ofDigitChars 10 power 0 = e.natAbs) :
    Double.readExponent? ((if e < 0 then '-' else '+') :: power) = some e := by
  have hall : power.all Char.isDigit = true := List.all_eq_true.2 hdigits
  have hempty : power.isEmpty = false := by simpa using hne
  by_cases he : e < 0
  · have hnegative : -(e.natAbs : Int) = e := by omega
    simp only [Double.readExponent?, if_pos he, hall, hempty, hvalue, hnegative]
    rfl
  · have hnatural : (e.natAbs : Int) = e := by omega
    simp only [Double.readExponent?, if_neg he, hall, hempty, hvalue, hnatural]
    rfl

/-- The scientific form of a decimal is read as the decimal. -/
theorem readDecimal?_scientific (d : Decimal) : Double.readDecimal? d.scientific = some d := by
  obtain ⟨c, more, power, hdigits, htext, hpower, hpowerDigits, hpowerValue⟩ :=
    d.exists_scientific
  have hmem : ∀ x ∈ c :: more, x.isDigit = true :=
    hdigits ▸ Decimal.isDigit_of_mem_toDigits d.digits
  have hvalue : Nat.ofDigitChars 10 (c :: more) 0 = d.digits := by
    rw [← hdigits, Nat.ofDigitChars_ten_toDigits]
  have hread := readExponent?_signed (d.exponent + more.length) hpower hpowerDigits hpowerValue
  generalize (if d.exponent + more.length < 0 then '-' else '+') :: power = behind at htext hread
  have hexponent : ∀ x ∈ ('e' :: behind).head?, x.isDigit = false :=
    fun x hx => Option.some.inj hx ▸ rfl
  rw [htext]
  cases more with
  | nil =>
    obtain ⟨htake, hdrop⟩ := takeWhile_append_of_stop hmem hexponent
    simp only [Double.readDecimal?, if_pos, List.nil_append, htake, hdrop]
    simp [hread, hvalue]
  | cons x more =>
    have hpoint : ∀ y ∈ ('.' :: x :: more ++ 'e' :: behind).head?, y.isDigit = false :=
      fun y hy => Option.some.inj hy ▸ rfl
    have hfirst : ∀ y ∈ [c], y.isDigit = true :=
      List.forall_mem_singleton.2 (hmem c List.mem_cons_self)
    obtain ⟨htake, hdrop⟩ := takeWhile_append_of_stop hfirst hpoint
    obtain ⟨htake', hdrop'⟩ := takeWhile_append_of_stop (List.forall_mem_cons.1 hmem).2 hexponent
    rw [if_neg (List.cons_ne_nil x more)]
    simp only [Double.readDecimal?, htake, hdrop, List.cons_append] at *
    simp only [htake', hdrop', hread]
    simp [hvalue]

/-- Both forms are read as the number of the decimal. -/
theorem exists_readDecimal? (d : Decimal) :
    (∃ e, Double.readDecimal? d.positional = some e ∧ e.value = d.value) ∧
      ∃ e, Double.readDecimal? d.compact = some e ∧ e.value = d.value := by
  have hpositional : ∃ e, Double.readDecimal? d.positional = some e ∧ e.value = d.value := by
    obtain ⟨whole, fraction, h, hvalue⟩ := d.positional_spec
    refine ⟨Word.decimal whole fraction, ?_, hvalue.value_eq⟩
    rw [h.text_eq]
    exact readDecimal?_point h.whole_ne_nil h.whole_digits h.fraction_digits
  refine ⟨hpositional, ?_⟩
  unfold compact
  dsimp only
  split
  · exact hpositional
  · exact ⟨d, d.readDecimal?_scientific, rfl⟩

/-! ## Signs -/

theorem head?_of_readDecimal? {text : List Char} {d : Decimal}
    (h : Double.readDecimal? text = some d) : text.head? ≠ some '-' := by
  rintro hhead
  obtain ⟨rest, rfl⟩ := List.head?_eq_some_iff.1 hhead
  have hnone : Double.readDecimal? ('-' :: rest) = none := by
    simp [Double.readDecimal?]
  rw [hnone] at h
  cases h

theorem denoted?_signed (negative : Bool) {text : List Char} {d : Decimal}
    (h : Double.readDecimal? text = some d) :
    denoted? ((if negative then ['-'] else []) ++ text) =
      some (if negative then -d.value else d.value) := by
  cases negative with
  | true =>
    change (Double.readDecimal? text).map _ = _
    rw [h]
    rfl
  | false =>
    have hhead := head?_of_readDecimal? h
    change denoted? text = _
    unfold denoted?
    split
    · exact absurd rfl hhead
    · rw [h]
      rfl

end Decimal

/-- The two notations of a finite double. In source text it is written with a sign or without one,
digits, a point and digits, and as it is shown elsewhere it may have an exponent; both texts denote
the same number exactly, and they have the same sign. Without a sign, the source text is read as one
token, a number with the double as its value. -/
theorem Double.positional_exact (m : Magnitude) (file : String) :
    (∀ negative : Bool,
      let text := (Number.write .source (.float (.finite negative m))).toList
      let shown := (Number.write .compact (.float (.finite negative m))).toList
      (∃ front digits whole fraction : List Char, text = front ++ digits ∧ front ∈ [[], ['-']] ∧
        Decimal.IsPositional digits whole fraction) ∧
      (∃ q, Decimal.denoted? shown = some q ∧ Decimal.denoted? text = some q) ∧
      (text.head? = some '-' ↔ shown.head? = some '-')) ∧
    let text := Number.write .source (.float (.finite false m))
    ∃ t, (lex text file).stream.ahead = [t] ∧ t.kind = .number ∧ t.lexeme = text ∧
      t.value = .float (.finite false m) ∧ (lex text file).diagnostics = [] := by
  constructor
  · intro negative text shown
    have htext : text = (if negative then ['-'] else []) ++ m.shortest.positional :=
      Double.toList_write_finite .source negative m
    have hshown : shown = (if negative then ['-'] else []) ++ m.shortest.compact :=
      Double.toList_write_finite .compact negative m
    obtain ⟨⟨d, hd, hdvalue⟩, e, he, hevalue⟩ := m.shortest.exists_readDecimal?
    obtain ⟨whole, fraction, hpositional, -⟩ := m.shortest.positional_spec
    rw [htext, hshown]
    refine ⟨⟨_, _, whole, fraction, rfl, by cases negative <;> simp, hpositional⟩,
      ⟨_, Decimal.denoted?_signed negative he, ?_⟩, ?_⟩
    · rw [Decimal.denoted?_signed negative hd, hdvalue, hevalue]
    · cases negative with
      | true => exact Iff.rfl
      | false =>
        exact iff_of_false (Decimal.head?_of_readDecimal? hd) (Decimal.head?_of_readDecimal? he)
  · intro text
    have hwords : wordsOf text.toList = [Scalar.word (.float (.finite false m))] := by
      simpa using (spells_float m).1 [] ends_nil
    obtain ⟨t, hahead, ht, hnone⟩ := lex_of_word text file hwords rfl
    exact ⟨t, hahead, congrArg Word.kind ht, String.toList_inj.1 (congrArg Word.lexeme ht),
      congrArg Word.value ht, hnone⟩

/-- A double that is shown with an exponent, and its text in source. -/
example :
    let x : Double := .finite false ⟨0x14f8b588e368f1, 1005, by decide⟩
    x.write .compact = "1e-05" ∧ x.write .source = "0.00001" := by
  decide +kernel

end RuleLang
