import RuleLang.Proofs.Json.Reader
import RuleLang.Proofs.Token.Words

/-!
Written numbers are read back. An integer is read as its digits, and the compact form of a decimal,
with or without an exponent, as a decimal with the same nearest double (`readNumber_compact`). The
shortest decimal of a double is therefore read as the double (`readNumber_finite`).
-/
namespace RuleLang

/-! ## Leading zeros -/

theorem eq_zero_of_head?_toDigits {n : Nat} (h : (Nat.toDigits 10 n).head? = some '0') : n = 0 := by
  induction n using Nat.strongRecOn with
  | ind n ih =>
    rw [Nat.toDigits_eq_if (by decide)] at h
    split at h
    · have hdigits : ∀ d < 10, Nat.digitChar d = '0' → d = 0 := by decide
      exact hdigits n ‹_› (Option.some.inj h)
    · rw [List.head?_append_of_ne_nil _ Nat.toDigits_ne_nil] at h
      have := ih (n / 10) (by omega) h
      omega

theorem Magnitude.nearest?_zero {den : Nat} (h : 0 < den) : nearest? 0 den = some zero := by
  have hround : roundHalfEven 0 (den * twoTo 0) = 0 := by
    simp [roundHalfEven, twoTo, h]
  simp only [nearest?, Nat.mul_zero, Nat.zero_div]
  rw [show Nat.log2 0 - 52 = 0 from rfl, hround]
  rfl

/-- The shortest decimal of zero has no trailing zeros, and those of other magnitudes have
digits. -/
theorem Magnitude.exponent_shortest {m : Magnitude} (h : m.shortest.digits = 0) :
    m.shortest.exponent = 0 := by
  by_cases hzero : m.significand = 0
  · simp [shortest, hzero]
  · have hself := m.magnitude?_shortest
    rw [Decimal.magnitude?, Decimal.numerator, h, Nat.zero_mul,
      nearest?_zero m.shortest.denominator_pos] at hself
    cases hself
    exact absurd rfl hzero

/-- Where the positional form of a decimal begins with a zero, the point follows. -/
theorem Decimal.point_of_head?_positional {d : Decimal} (h : d.digits = 0 → d.exponent = 0)
    (hhead : d.positional.head? = some '0') : ∃ tail, d.positional = '0' :: '.' :: tail := by
  obtain ⟨digits, exponent⟩ := d
  cases exponent with
  | ofNat zeros =>
    simp only [positional, List.append_assoc] at hhead ⊢
    rw [List.head?_append_of_ne_nil _ Nat.toDigits_ne_nil] at hhead
    obtain rfl : digits = 0 := eq_zero_of_head?_toDigits hhead
    obtain rfl : zeros = 0 := Int.ofNat_inj.1 (h rfl)
    exact ⟨['0'], rfl⟩
  | negSucc n =>
    have hnonzero : digits ≠ 0 := fun hzero => Int.negSucc_ne_zero n (h hzero)
    simp only [positional] at hhead ⊢
    obtain hlong | hshort := Nat.lt_or_ge (n + 1) (Nat.toDigits 10 digits).length
    · -- no zeros are put in front
      have hpad : n + 1 + 1 - (Nat.toDigits 10 digits).length = 0 := by omega
      rw [hpad, List.replicate_zero, List.nil_append] at hhead
      have hne :
          (Nat.toDigits 10 digits).take ((Nat.toDigits 10 digits).length - (n + 1)) ≠ [] := by
        rw [Ne, List.take_eq_nil_iff]
        exact fun hnil => hnil.elim (by omega) Nat.toDigits_ne_nil
      rw [List.head?_append_of_ne_nil _ hne, List.head?_take, if_neg (by omega)] at hhead
      exact absurd (eq_zero_of_head?_toDigits hhead) hnonzero
    · -- one zero is in front of the point
      obtain ⟨zeros, hzeros⟩ : ∃ zeros, n + 1 + 1 - (Nat.toDigits 10 digits).length = zeros + 1 :=
        ⟨n + 1 - (Nat.toDigits 10 digits).length, by omega⟩
      have hwhole : (List.replicate (zeros + 1) '0' ++ Nat.toDigits 10 digits).length - (n + 1) =
          1 := by
        rw [List.length_append, List.length_replicate]
        omega
      rw [hzeros, hwhole]
      exact ⟨_, rfl⟩

/-- The scientific form of a decimal: one digit, the others behind a point if there are any, and an
exponent that counts them. -/
theorem Decimal.exists_scientific (d : Decimal) : ∃ (c : Char) (more power : List Char),
    Nat.toDigits 10 d.digits = c :: more ∧
    d.scientific = [c] ++ ((if more = [] then [] else '.' :: more) ++
      'e' :: (if d.exponent + more.length < 0 then '-' else '+') :: power) ∧
    power ≠ [] ∧ (∀ x ∈ power, x.isDigit = true) ∧
    Nat.ofDigitChars 10 power 0 = (d.exponent + more.length).natAbs := by
  obtain ⟨c, more, hdigits⟩ :=
    List.exists_cons_of_ne_nil (Nat.toDigits_ne_nil (b := 10) (n := d.digits))
  have hexponent : d.exponent + (c :: more).length - 1 = d.exponent + more.length := by
    rw [List.length_cons]
    omega
  let power := Nat.toDigits 10 (d.exponent + more.length).natAbs
  refine ⟨c, more, List.replicate (2 - power.length) '0' ++ power, hdigits, ?_, ?_, ?_, ?_⟩
  · simp only [scientific, hdigits, hexponent, power]
    cases more <;> simp
  · exact List.append_ne_nil_of_right_ne_nil _ Nat.toDigits_ne_nil
  · exact List.forall_mem_append.2 ⟨isDigit_of_mem_zeros, isDigit_of_mem_toDigits _⟩
  · rw [Nat.ofDigitChars_append, Nat.ofDigitChars_replicate_zero, Nat.mul_zero,
      Nat.ofDigitChars_ten_toDigits]

namespace Json

/-- The text is empty or begins with what may follow a number. -/
def Delimits (text : List Char) : Prop :=
  ∀ c ∈ text.head?, c = ',' ∨ c = ']' ∨ c = '}' ∨ c = '\n'

/-- Digits without zeros in front that could be left out. -/
structure IsWhole (digits : List Char) : Prop where
  ne_nil : digits ≠ []
  isDigit : ∀ c ∈ digits, c.isDigit = true
  zero : digits.head? = some '0' → digits = ['0']

theorem isWhole_toDigits (n : Nat) : IsWhole (Nat.toDigits 10 n) where
  ne_nil := Nat.toDigits_ne_nil
  isDigit := Decimal.isDigit_of_mem_toDigits n
  zero hhead := by
    rw [eq_zero_of_head?_toDigits hhead]
    rfl

/-- The sign in front of a number. -/
def sign (negative : Bool) : List Char := if negative then ['-'] else []

section Parts

variable {digits rest : List Char}

theorem readDigits_append (hne : digits ≠ []) (hdigits : ∀ c ∈ digits, c.isDigit = true)
    (hrest : ∀ c ∈ rest.head?, c.isDigit = false) :
    readDigits (digits ++ rest) = some (digits, rest) := by
  obtain ⟨htake, hdrop⟩ := takeWhile_append_of_stop hdigits hrest
  rw [readDigits, htake, hdrop, if_neg hne]

theorem readWhole_append (hdigits : IsWhole digits)
    (hrest : ∀ c ∈ rest.head?, c.isDigit = false) :
    readWhole (digits ++ rest) = some (digits, rest) := by
  have hleading : ¬(digits.head? = some '0' ∧ digits ≠ ['0']) := fun h => h.2 (hdigits.zero h.1)
  rw [readWhole, readDigits_append hdigits.ne_nil hdigits.isDigit hrest]
  exact if_neg hleading

/-- A number is read part by part. -/
theorem readNumber_append (negative : Bool) {whole fraction tail behind : List Char}
    {exponent : Option Int} (hwhole : IsWhole whole) (htail : ∀ c ∈ tail.head?, c.isDigit = false)
    (hfraction : readFraction tail = some (fraction, behind))
    (hexponent : readExponent behind = some (exponent, rest)) :
    readNumber (sign negative ++ (whole ++ tail)) =
      some (.number (Numeral.number ⟨negative, whole, fraction, exponent⟩), rest) := by
  have hread := readWhole_append hwhole htail
  have hfirst : (whole ++ tail).head? ≠ some '-' := by
    obtain ⟨c, more, rfl⟩ := List.exists_cons_of_ne_nil hwhole.ne_nil
    rintro ⟨⟩
    cases hwhole.isDigit '-' List.mem_cons_self
  have hsign : decide ((sign negative ++ (whole ++ tail)).head? = some '-') = negative := by
    cases negative with
    | true => rfl
    | false => exact decide_eq_false hfirst
  have htext : (if negative then (sign negative ++ (whole ++ tail)).tail
      else sign negative ++ (whole ++ tail)) = whole ++ tail := by
    cases negative <;> rfl
  simp only [readNumber, hsign, htext, hread, hfraction, hexponent, Option.bind_eq_bind,
    Option.bind_some]
  rfl

theorem isDigit_of_delimits (h : Delimits rest) : ∀ c ∈ rest.head?, c.isDigit = false := by
  intro c hc
  obtain rfl | rfl | rfl | rfl := h c hc <;> rfl

theorem readFraction_of_delimits (h : Delimits rest) : readFraction rest = some ([], rest) := by
  unfold readFraction
  split
  · exact absurd (h '.' rfl) (by decide)
  · rfl

theorem readExponent_of_delimits (h : Delimits rest) : readExponent rest = some (none, rest) := by
  cases rest with
  | nil => rfl
  | cons c rest => obtain rfl | rfl | rfl | rfl := h c rfl <;> rfl

/-- In front of an exponent, a point stands only where digits follow it. -/
theorem readFraction_append (hdigits : ∀ c ∈ digits, c.isDigit = true) (behind : List Char) :
    let text := (if digits = [] then [] else '.' :: digits) ++ 'e' :: behind
    (∀ c ∈ text.head?, c.isDigit = false) ∧ readFraction text = some (digits, 'e' :: behind) := by
  have hexponent : ∀ c ∈ ('e' :: behind).head?, c.isDigit = false :=
    fun c hc => Option.some.inj hc ▸ rfl
  by_cases hne : digits = []
  · subst hne
    exact ⟨hexponent, rfl⟩
  · rw [if_neg hne]
    exact ⟨fun c hc => Option.some.inj hc ▸ rfl, readDigits_append hne hdigits hexponent⟩

/-- An exponent is read with its sign. -/
theorem readExponent_append (e : Int) (hne : digits ≠ [])
    (hdigits : ∀ c ∈ digits, c.isDigit = true) (hvalue : Nat.ofDigitChars 10 digits 0 = e.natAbs)
    (hrest : ∀ c ∈ rest.head?, c.isDigit = false) :
    readExponent ('e' :: (if e < 0 then '-' else '+') :: (digits ++ rest)) =
      some (some e, rest) := by
  have hread := readDigits_append hne hdigits hrest
  have htext : (if e < 0 then -(e.natAbs : Int) else e.natAbs) = e := by
    split <;> omega
  by_cases he : e < 0
  · rw [if_pos he] at htext ⊢
    simp only [readExponent, true_or, if_true, hread, hvalue, Option.bind_eq_bind,
      Option.bind_some, List.head?_cons, htext]
    rfl
  · rw [if_neg he] at htext ⊢
    simp only [readExponent, true_or, if_true, hread, hvalue, Option.bind_eq_bind,
      Option.bind_some, List.head?_cons, htext]
    rfl

end Parts

section Numbers

variable {rest : List Char} (h : Delimits rest)
include h

/-! ## Integers -/

theorem readNumber_int (n : Int) :
    readNumber ((Number.write .json (.int n)).toList ++ rest) = some (.int n, rest) := by
  have hread (negative : Bool) (k : Nat) := readNumber_append negative (isWhole_toDigits k)
    (isDigit_of_delimits h) (readFraction_of_delimits h) (readExponent_of_delimits h)
  simp only [Numeral.number, Nat.ofDigitChars_ten_toDigits, and_self, if_true] at hread
  cases n with
  | ofNat k =>
    rw [Int.ofNat_eq_natCast, Number.toList_write_ofNat]
    exact hread false k
  | negSucc k =>
    rw [Number.toList_write_negSucc]
    exact hread true (k + 1)

/-! ## Doubles -/

theorem readNumber_positional (negative : Bool) {d : Decimal}
    (hd : d.digits = 0 → d.exponent = 0) : ∃ e : Decimal, e.magnitude? = d.magnitude? ∧
      readNumber (sign negative ++ (d.positional ++ rest)) =
        some (.number (.float (.ofDecimal negative e)), rest) := by
  obtain ⟨whole, fraction, ⟨htext, hwhole, hfraction, hwholeDigits, hfractionDigits⟩, hvalue⟩ :=
    d.positional_spec
  have hzero : whole.head? = some '0' → whole = ['0'] := by
    intro hhead
    obtain ⟨tail, htail⟩ := d.point_of_head?_positional hd
      (by rw [htext, List.head?_append_of_ne_nil _ hwhole, hhead])
    rw [htext] at htail
    obtain ⟨more, rfl⟩ := List.head?_eq_some_iff.1 hhead
    cases more with
    | nil => rfl
    | cons c more =>
      obtain rfl : c = '.' := (List.cons_eq_cons.1 (List.cons_eq_cons.1 htail).2).1
      cases hwholeDigits '.' (List.mem_cons_of_mem _ List.mem_cons_self)
  have hpoint : ∀ c ∈ ('.' :: (fraction ++ rest)).head?, c.isDigit = false :=
    fun c hc => Option.some.inj hc ▸ rfl
  have hread := readNumber_append negative ⟨hwhole, hwholeDigits, hzero⟩ hpoint
    (readDigits_append hfraction hfractionDigits (isDigit_of_delimits h))
    (readExponent_of_delimits h)
  refine ⟨_, hvalue.magnitude?_eq, ?_⟩
  rw [htext, List.append_assoc, List.cons_append, hread, Numeral.number,
    if_neg (fun hnone => hfraction hnone.1)]
  simp [Word.decimal]

theorem readNumber_scientific (negative : Bool) (d : Decimal) :
    readNumber (sign negative ++ (d.scientific ++ rest)) =
      some (.number (.float (.ofDecimal negative d)), rest) := by
  obtain ⟨c, more, power, hdigits, htext, hpower, hpowerDigits, hpowerValue⟩ :=
    d.exists_scientific
  have hmem : ∀ x ∈ c :: more, x.isDigit = true :=
    hdigits ▸ Decimal.isDigit_of_mem_toDigits d.digits
  have hwhole : IsWhole [c] := ⟨List.cons_ne_nil _ _,
    List.forall_mem_singleton.2 (hmem c List.mem_cons_self), congrArg Option.toList⟩
  obtain ⟨hpoint, hfraction⟩ := readFraction_append (List.forall_mem_cons.1 hmem).2
    ((if d.exponent + more.length < 0 then '-' else '+') :: (power ++ rest))
  have hread := readNumber_append negative hwhole hpoint hfraction
    (readExponent_append (d.exponent + more.length) hpower hpowerDigits hpowerValue
      (isDigit_of_delimits h))
  have hvalue : Nat.ofDigitChars 10 ([c] ++ more) 0 = d.digits := by
    rw [List.singleton_append, ← hdigits, Nat.ofDigitChars_ten_toDigits]
  have hnumber : Numeral.number ⟨negative, [c], more, some (d.exponent + more.length)⟩ =
      .float (.ofDecimal negative d) := by
    rw [Numeral.number, if_neg (fun hnone => nomatch hnone.2), hvalue, Option.getD_some,
      Int.add_sub_cancel]
  rw [hnumber] at hread
  rw [htext, ← hread]
  simp only [List.append_assoc, List.cons_append]

/-- The compact form of a decimal is read as a decimal with the same nearest double. -/
theorem readNumber_compact (negative : Bool) {d : Decimal} (hd : d.digits = 0 → d.exponent = 0) :
    ∃ e : Decimal, e.magnitude? = d.magnitude? ∧
      readNumber (sign negative ++ (d.compact ++ rest)) =
        some (.number (.float (.ofDecimal negative e)), rest) := by
  unfold Decimal.compact
  dsimp only
  split
  · exact readNumber_positional h negative hd
  · exact ⟨d, rfl, readNumber_scientific h negative d⟩

theorem readNumber_finite (negative : Bool) (m : Magnitude) :
    readNumber ((Number.write .json (.float (.finite negative m))).toList ++ rest) =
      some (.number (.float (.finite negative m)), rest) := by
  have htext : (Number.write .json (.float (.finite negative m))).toList =
      sign negative ++ m.shortest.compact :=
    Double.toList_write_finite .json negative m
  obtain ⟨e, hvalue, hread⟩ := readNumber_compact h negative m.exponent_shortest
  rw [htext, List.append_assoc, hread, Double.ofDecimal_eq (hvalue.trans m.magnitude?_shortest)]

end Numbers

end Json

end RuleLang
