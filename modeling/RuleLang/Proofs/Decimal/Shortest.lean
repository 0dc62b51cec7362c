import RuleLang.Decimal.Layout
import RuleLang.Proofs.Decimal.Nearest
import RuleLang.Token.Word

/-!
Written doubles read back. The shortest decimal of a magnitude has the magnitude as its nearest one
(`magnitude?_shortest`), and the positional form of a decimal keeps its value, so a magnitude is
what its source text stands for (`Double.ofDecimal_write`). Integers are written out up to a number
of digits (`Number.isWritable_int`).
-/
namespace RuleLang

namespace Decimal

theorem denominator_pos (d : Decimal) : 0 < d.denominator := tenTo_pos _

/-- Two decimals stand for one number. -/
def SameValue (d e : Decimal) : Prop := d.numerator * e.denominator = e.numerator * d.denominator

/-- Decimals of equal value have the same nearest magnitude. -/
theorem SameValue.magnitude?_eq {d e : Decimal} (h : d.SameValue e) :
    d.magnitude? = e.magnitude? :=
  Magnitude.nearest?_congr h d.denominator_pos e.denominator_pos

/-- Zeros at the end of the digits may be counted in the exponent. -/
theorem sameValue_mul_tenTo (digits zeros : Nat) (exponent : Int) :
    SameValue ⟨digits * tenTo zeros, exponent⟩ ⟨digits, exponent + zeros⟩ := by
  have hpow : zeros + exponent.toNat + (-(exponent + zeros)).toNat =
      (exponent + zeros).toNat + (-exponent).toNat := by omega
  simp only [SameValue, numerator, denominator]
  calc digits * tenTo zeros * tenTo exponent.toNat * tenTo (-(exponent + zeros)).toNat
      = digits * tenTo (zeros + exponent.toNat + (-(exponent + zeros)).toNat) := by
        rw [tenTo_add, tenTo_add, Nat.mul_assoc, Nat.mul_assoc, Nat.mul_assoc]
    _ = digits * tenTo (exponent + zeros).toNat * tenTo (-exponent).toNat := by
        rw [hpow, tenTo_add, Nat.mul_assoc]

theorem ofDigitChars_append_zeros (cs : List Char) (zeros : Nat) :
    Nat.ofDigitChars 10 (cs ++ List.replicate zeros '0') 0 =
      Nat.ofDigitChars 10 cs 0 * tenTo zeros := by
  rw [Nat.ofDigitChars_append, Nat.ofDigitChars_replicate_zero, Nat.mul_comm]
  rfl

/-- The digits of a number end with the zeros that are counted. -/
theorem eq_mul_tenTo (n : Nat) :
    let zeros := ((Nat.toDigits 10 n).reverse.takeWhile (· = '0')).length
    n = n / tenTo zeros * tenTo zeros := by
  intro zeros
  have hzeros : (Nat.toDigits 10 n).reverse.takeWhile (· = '0') = List.replicate zeros '0' :=
    List.eq_replicate_iff.2
      ⟨rfl, fun c hc => by simpa using List.all_eq_true.1 List.all_takeWhile c hc⟩
  have hdigits : Nat.toDigits 10 n =
      ((Nat.toDigits 10 n).reverse.dropWhile (· = '0')).reverse ++ List.replicate zeros '0' := by
    rw [← List.reverse_replicate, ← hzeros, ← List.reverse_append, List.takeWhile_append_dropWhile,
      List.reverse_reverse]
  have hvalue := ofDigitChars_append_zeros
    ((Nat.toDigits 10 n).reverse.dropWhile (· = '0')).reverse zeros
  rw [← hdigits, Nat.ofDigitChars_ten_toDigits] at hvalue
  rw [hvalue, Nat.mul_div_cancel _ (tenTo_pos zeros)]

theorem magnitude?_trimmed (d : Decimal) : d.trimmed.magnitude? = d.magnitude? := by
  have hdigits := eq_mul_tenTo d.digits
  unfold trimmed
  rw [← (sameValue_mul_tenTo _ _ _).magnitude?_eq, ← hdigits]

end Decimal

namespace Magnitude

/-- The full expansion has the value of the magnitude. -/
theorem magnitude?_expansion (m : Magnitude) : m.expansion.magnitude? = some m := by
  rw [← nearest?_self m]
  refine nearest?_congr ?_ (Decimal.denominator_pos _) m.denominator_pos
  have hten : tenTo (unitExponent - m.shift) =
      Nat.pow 5 (unitExponent - m.shift) * twoTo (unitExponent - m.shift) :=
    Nat.mul_pow 5 2 _
  have hexponent : (-(-((unitExponent - m.shift : Nat) : Int))).toNat = unitExponent - m.shift := by
    omega
  have hzero : (-((unitExponent - m.shift : Nat) : Int)).toNat = 0 := by omega
  simp only [expansion, Decimal.numerator, Decimal.denominator, hexponent, hzero, hten, denominator]
  rw [show tenTo 0 = 1 from rfl, Nat.mul_one, Nat.mul_assoc]

theorem magnitude?_shortest (m : Magnitude) : m.shortest.magnitude? = some m := by
  unfold shortest
  split
  · rename_i hzero
    rw [← nearest?_self m]
    refine nearest?_congr ?_ (Decimal.denominator_pos _) m.denominator_pos
    simp [Decimal.numerator, numerator, hzero]
  · split
    · rename_i d hd
      simpa using List.find?_some hd
    · rw [Decimal.magnitude?_trimmed, magnitude?_expansion]

end Magnitude

namespace Decimal

/-- A text with digits on both sides of a point. -/
structure IsPositional (text whole fraction : List Char) : Prop where
  text_eq : text = whole ++ '.' :: fraction
  whole_ne_nil : whole ≠ []
  fraction_ne_nil : fraction ≠ []
  whole_digits : ∀ c ∈ whole, c.isDigit = true
  fraction_digits : ∀ c ∈ fraction, c.isDigit = true

theorem isDigit_of_mem_zeros {zeros : Nat} : ∀ c ∈ List.replicate zeros '0', c.isDigit = true := by
  intro c hc
  rw [List.eq_of_mem_replicate hc]
  rfl

theorem isDigit_of_mem_toDigits (n : Nat) : ∀ c ∈ Nat.toDigits 10 n, c.isDigit = true :=
  fun _ hc => Nat.isDigit_of_mem_toDigits (by decide) (by decide) hc

/-- Digits with a point put between them. -/
theorem isPositional_cut {digits : List Char} (h : ∀ c ∈ digits, c.isDigit = true) {k : Nat}
    (hpos : 0 < k) (hlt : k < digits.length) :
    IsPositional (digits.take k ++ '.' :: digits.drop k) (digits.take k) (digits.drop k) where
  text_eq := rfl
  whole_ne_nil hnil := by
    have := congrArg List.length hnil
    simp only [List.length_take, List.length_nil] at this
    omega
  fraction_ne_nil hnil := by
    have := congrArg List.length hnil
    simp only [List.length_drop, List.length_nil] at this
    omega
  whole_digits c hc := h c (List.mem_of_mem_take hc)
  fraction_digits c hc := h c (List.mem_of_mem_drop hc)

/-- The positional form has digits on both sides of a point, which keep the value. -/
theorem positional_spec (d : Decimal) : ∃ whole fraction : List Char,
    IsPositional d.positional whole fraction ∧
    (Word.decimal whole fraction).SameValue d := by
  obtain ⟨digits, exponent⟩ := d
  cases exponent with
  | ofNat zeros =>
    refine ⟨Nat.toDigits 10 digits ++ List.replicate zeros '0', ['0'], ?_, ?_⟩
    · exact {
        text_eq := by simp [positional]
        whole_ne_nil := by simp [Nat.toDigits_ne_nil]
        fraction_ne_nil := by simp
        whole_digits :=
          List.forall_mem_append.2 ⟨isDigit_of_mem_toDigits digits, isDigit_of_mem_zeros⟩
        fraction_digits := List.forall_mem_singleton.2 rfl }
    · have hzeros : List.replicate zeros '0' ++ ['0'] = List.replicate (zeros + 1) '0' :=
        List.replicate_succ'.symm
      have hexponent : -((['0'] : List Char).length : Int) + (zeros + 1 : Nat) = zeros := by
        rw [List.length_singleton]
        omega
      have hsame := sameValue_mul_tenTo digits (zeros + 1) (-(['0'] : List Char).length)
      rw [hexponent] at hsame
      rw [Word.decimal, List.append_assoc, hzeros, ofDigitChars_append_zeros,
        Nat.ofDigitChars_ten_toDigits]
      exact hsame
  | negSucc n =>
    generalize hp : List.replicate (n + 1 + 1 - (Nat.toDigits 10 digits).length) '0' ++
      Nat.toDigits 10 digits = padded
    have hlength : n + 2 ≤ padded.length := by
      rw [← hp, List.length_append, List.length_replicate]
      omega
    have hvalue : Nat.ofDigitChars 10 padded 0 = digits := by
      rw [← hp, Nat.ofDigitChars_append, Nat.ofDigitChars_replicate_zero, Nat.mul_zero,
        Nat.ofDigitChars_ten_toDigits]
    have hdigits : ∀ c ∈ padded, c.isDigit = true := by
      rw [← hp]
      exact List.forall_mem_append.2 ⟨isDigit_of_mem_zeros, isDigit_of_mem_toDigits digits⟩
    refine ⟨padded.take (padded.length - (n + 1)), padded.drop (padded.length - (n + 1)), ?_, ?_⟩
    · simp only [positional, hp]
      exact isPositional_cut hdigits (by omega) (by omega)
    · have hexponent : -((padded.drop (padded.length - (n + 1))).length : Int) = .negSucc n := by
        rw [List.length_drop]
        omega
      rw [Word.decimal, List.take_append_drop, hvalue, hexponent]
      exact rfl

end Decimal

/-! ## Integers -/

/-- The integer in decimal digits has more of them than are written out. -/
def Number.IsTooLong (z : Int) : Prop := maxWrittenDigits < (Nat.toDigits 10 z.natAbs).length

theorem Number.isWritable_int {z : Int} : (Number.int z).isWritable = false ↔ IsTooLong z := by
  have hdigits := Nat.length_toDigits_le_iff (n := z.natAbs) (show 1 < 10 by decide)
    (show 0 < maxWrittenDigits by decide)
  have hten (n : Nat) : tenTo n = 10 ^ n := rfl
  rw [isWritable, decide_eq_false_iff_not, hten, ← hdigits]
  exact Nat.not_le

theorem Number.isWritable_of_le {k : Nat} (h : k ≤ 0x8000000000000000) :
    (Number.int k).isWritable = true := by
  have hdigits : (Nat.toDigits 10 k).length ≤ 20 :=
    (Nat.length_toDigits_le_iff (by decide) (by decide)).2 (by omega)
  rw [← Bool.not_eq_false, isWritable_int, IsTooLong, Int.natAbs_natCast, Nat.not_lt]
  exact Nat.le_trans hdigits (by decide)

theorem Number.toList_write_ofNat (style : Double.Style) (k : Nat) :
    (Number.write style (.int k)).toList = Nat.toDigits 10 k := Nat.toList_repr

theorem Number.toList_write_negSucc (style : Double.Style) (k : Nat) :
    (Number.write style (.int (.negSucc k))).toList = '-' :: Nat.toDigits 10 (k + 1) := by
  change ("-" ++ Nat.repr (k + 1)).toList = _
  rw [String.toList_append, Nat.toList_repr]
  rfl

/-! ## Doubles -/

/-- The text of a finite double is that of its shortest decimal, behind a sign if it is negative. -/
theorem Double.toList_write_finite (style : Style) (negative : Bool) (m : Magnitude) :
    (Double.write style (.finite negative m)).toList =
      (if negative then ['-'] else []) ++ style.magnitude m.shortest := by
  have hsign : (if negative then "-" else "").toList = if negative then ['-'] else [] := by
    cases negative <;> rfl
  rw [← hsign, write, String.toList_append, String.toList_ofList]
  rfl

theorem Double.ofDecimal_eq {negative : Bool} {d : Decimal} {m : Magnitude}
    (h : d.magnitude? = some m) : Double.ofDecimal negative d = .finite negative m := by
  unfold Double.ofDecimal
  rw [h]

/-- A magnitude is what its source text stands for. -/
theorem Double.ofDecimal_write (m : Magnitude) : ∃ whole fraction : List Char,
    Decimal.IsPositional (Double.write .source (.finite false m)).toList whole fraction ∧
    Double.ofDecimal false (Word.decimal whole fraction) = .finite false m := by
  obtain ⟨whole, fraction, htext, hvalue⟩ := m.shortest.positional_spec
  rw [Double.toList_write_finite]
  exact ⟨whole, fraction, htext,
    Double.ofDecimal_eq (hvalue.magnitude?_eq.trans m.magnitude?_shortest)⟩

end RuleLang
