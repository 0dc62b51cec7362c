import RuleLang.Decimal.Double

/-!
Rounding to doubles. The nearest magnitude of a fraction depends only on its value
(`nearest?_congr`), and that of a magnitude is the magnitude itself (`nearest?_self`).
-/
namespace RuleLang

theorem twoTo_add (m n : Nat) : twoTo (m + n) = twoTo m * twoTo n := Nat.pow_add 2 m n

theorem tenTo_add (m n : Nat) : tenTo (m + n) = tenTo m * tenTo n := Nat.pow_add 10 m n

theorem tenTo_mono {m n : Nat} (h : m ≤ n) : tenTo m ≤ tenTo n :=
  Nat.pow_le_pow_right (by decide) h

theorem roundHalfEven_mul_right (num den : Nat) {k : Nat} (hk : 0 < k) :
    roundHalfEven (num * k) (den * k) = roundHalfEven num den := by
  have hdiv : num * k / (den * k) = num / den := Nat.mul_div_mul_right _ _ hk
  have hmod : 2 * (num * k % (den * k)) = 2 * (num % den) * k := by
    rw [Nat.mul_mod_mul_right, Nat.mul_assoc]
  have hlt : 2 * (num % den) * k < den * k ↔ 2 * (num % den) < den := Nat.mul_lt_mul_right hk
  have heq : 2 * (num % den) * k = den * k ↔ 2 * (num % den) = den :=
    Nat.mul_left_inj (Nat.ne_of_gt hk)
  unfold roundHalfEven
  simp only [hdiv, hmod, hlt, heq]

/-- An exact quotient is not rounded. -/
theorem roundHalfEven_mul_self (n : Nat) {den : Nat} (hden : 0 < den) :
    roundHalfEven (n * den) den = n := by
  simp [roundHalfEven, hden]

namespace Magnitude

theorem nearest?_mul_right (num den : Nat) {k : Nat} (hk : 0 < k) :
    nearest? (num * k) (den * k) = nearest? num den := by
  have hunits : twoTo unitExponent * (num * k) = twoTo unitExponent * num * k :=
    (Nat.mul_assoc _ _ _).symm
  have hden (n : Nat) : den * k * n = den * n * k := Nat.mul_right_comm _ _ _
  unfold nearest?
  simp only [hunits, hden, Nat.mul_div_mul_right _ _ hk, roundHalfEven_mul_right _ _ hk]

/-- Fractions of equal value have the same nearest magnitude. -/
theorem nearest?_congr {num den num' den' : Nat} (h : num * den' = num' * den) (hden : 0 < den)
    (hden' : 0 < den') : nearest? num den = nearest? num' den' := by
  rw [← nearest?_mul_right num den hden', h, Nat.mul_comm den den',
    nearest?_mul_right num' den' hden]

theorem ofParts?_self (m : Magnitude) : ofParts? m.significand m.shift = some m := by
  unfold ofParts?
  rw [dif_pos m.canonical]

/-- The leading binary digit of a canonical magnitude stands where its form says. -/
theorem log2_units (m : Magnitude) :
    (m.significand * twoTo m.shift).log2 - 52 = m.shift := by
  have hlt : m.significand < 2 ^ 53 := by
    rcases m.canonical with ⟨-, h⟩ | ⟨-, -, h⟩ <;> omega
  rcases m.canonical with ⟨hshift, -⟩ | ⟨-, hlow, -⟩
  · have hlog : m.significand.log2 ≤ 52 := by
      by_cases h0 : m.significand = 0
      · simp [h0]
      · have := (Nat.log2_lt h0).2 hlt
        omega
    simp [hshift, twoTo]
    omega
  · have hne : m.significand * twoTo m.shift ≠ 0 :=
      Nat.ne_of_gt (Nat.mul_pos (by omega) (twoTo_pos _))
    have hlog : (m.significand * twoTo m.shift).log2 = 52 + m.shift := by
      rw [Nat.log2_eq_iff hne]
      constructor
      · rw [Nat.pow_add]
        exact Nat.mul_le_mul_right _ hlow
      · rw [show 52 + m.shift + 1 = 53 + m.shift by omega, Nat.pow_add]
        exact Nat.mul_lt_mul_of_pos_right hlt (twoTo_pos _)
    omega

/-- In units the magnitude is `significand * 2 ^ shift`. -/
theorem numerator_units (m : Magnitude) :
    twoTo unitExponent * m.numerator = m.significand * twoTo m.shift * m.denominator := by
  have hpow : unitExponent + (m.shift - unitExponent) = m.shift + (unitExponent - m.shift) := by
    omega
  rw [numerator, denominator, Nat.mul_left_comm, ← twoTo_add, hpow, twoTo_add, Nat.mul_assoc]

/-- A magnitude is nearest to itself. -/
theorem nearest?_self (m : Magnitude) : nearest? m.numerator m.denominator = some m := by
  have hlt : m.significand < 0x20000000000000 := by
    rcases m.canonical with ⟨-, h⟩ | ⟨-, -, h⟩ <;> exact h
  have hshift : (twoTo unitExponent * m.numerator / m.denominator).log2 - 52 = m.shift := by
    rw [numerator_units, Nat.mul_div_cancel _ m.denominator_pos, log2_units]
  have hround : roundHalfEven (twoTo unitExponent * m.numerator)
      (m.denominator * twoTo m.shift) = m.significand := by
    rw [numerator_units, Nat.mul_assoc, Nat.mul_comm (twoTo m.shift)]
    exact roundHalfEven_mul_self _ (Nat.mul_pos m.denominator_pos (twoTo_pos _))
  unfold nearest?
  simp only [hshift, hround, if_pos hlt, ofParts?_self]

end Magnitude

end RuleLang
