import Mathlib.Algebra.Order.Field.Basic
import Mathlib.Algebra.Order.Field.Rat
import Mathlib.Tactic.FieldSimp
import Mathlib.Tactic.Linarith
import Mathlib.Tactic.Ring
import RuleLang.Proofs.Decimal.Nearest

/-!
Correct rounding. A magnitude stands for a rational number, and so does a decimal; the double that a
decimal reads as is the nearest one, with an even significand if two are equally near
(`Double.ofDecimal_eq_finite_iff`), and infinity from the point on that lies half a step behind the
greatest magnitude (`Double.ofDecimal_eq_infinite_iff`).

The magnitudes with a given shift or a greater one are multiples of one spacing, so rounding to a
multiple of it finds the nearest of them. Those with a smaller shift lie below every number that is
rounded to this spacing.
-/
namespace RuleLang

/-! ## Rounding to whole numbers -/

/-- A whole number nearest to `y`, and even if another one is equally near. -/
structure IsRounded (y : ℚ) (r : Nat) : Prop where
  near : |(r : ℚ) - y| ≤ 1 / 2
  even : |(r : ℚ) - y| = 1 / 2 → r % 2 = 0

theorem isRounded_roundHalfEven (num : Nat) {den : Nat} (hden : 0 < den) :
    IsRounded (num / den) (roundHalfEven num den) := by
  have hpos : (0 : ℚ) < den := Nat.cast_pos.2 hden
  have hsplit : (num : ℚ) / den = (num / den : Nat) + (num % den : Nat) / den := by
    have h : (num : ℚ) = den * (num / den : Nat) + (num % den : Nat) :=
      mod_cast (Nat.div_add_mod num den).symm
    field_simp
    linarith
  have hnonneg : (0 : ℚ) ≤ (num % den : Nat) / den := div_nonneg (Nat.cast_nonneg _) hpos.le
  have hone : ((num % den : Nat) : ℚ) / den < 1 :=
    (div_lt_one hpos).2 (Nat.cast_lt.2 (Nat.mod_lt num hden))
  have hlt : ((num % den : Nat) : ℚ) / den < 1 / 2 ↔ 2 * (num % den) < den := by
    rw [div_lt_div_iff₀ hpos two_pos, mul_comm, one_mul]
    exact_mod_cast Iff.rfl
  have heq : ((num % den : Nat) : ℚ) / den = 1 / 2 ↔ 2 * (num % den) = den := by
    rw [div_eq_div_iff hpos.ne' two_ne_zero, mul_comm, one_mul]
    exact_mod_cast Iff.rfl
  rw [hsplit]
  generalize ((num % den : Nat) : ℚ) / den = f at hnonneg hone hlt heq
  unfold roundHalfEven
  simp only
  split
  · rename_i hlow
    have habs : |((num / den : Nat) : ℚ) - ((num / den : Nat) + f)| = f := by
      rw [sub_add_cancel_left, abs_neg, abs_of_nonneg hnonneg]
    constructor
    · rw [habs]
      obtain h | ⟨h, -⟩ := hlow
      · exact (hlt.2 h).le
      · exact (heq.2 h).le
    · rw [habs, heq]
      omega
  · rename_i hlow
    have habs : |((num / den + 1 : Nat) : ℚ) - ((num / den : Nat) + f)| = 1 - f := by
      rw [Nat.cast_succ, add_sub_add_left_eq_sub, abs_of_nonneg (by linarith)]
    constructor
    · have hhigh : ¬f < 1 / 2 := fun h => hlow (.inl (hlt.1 h))
      rw [habs]
      linarith
    · intro hhalf
      rw [habs] at hhalf
      have := heq.1 (by linarith)
      omega

namespace IsRounded

variable {y : ℚ} {r : Nat}

/-- Two whole numbers differ by one at least. -/
theorem le_abs_sub (h : IsRounded y r) {k : Nat} (hk : k ≠ r) : 1 / 2 ≤ |(k : ℚ) - y| := by
  have hone : (1 : ℚ) ≤ |(k : ℚ) - r| := by
    have : (1 : Int) ≤ |(k : Int) - r| := by
      rw [le_abs]
      omega
    exact_mod_cast this
  have htriangle : |(k : ℚ) - r| ≤ |(k : ℚ) - y| + |(r : ℚ) - y| := by
    rw [abs_sub_comm (r : ℚ) y]
    exact abs_sub_le _ _ _
  linarith [h.near]

theorem nearest (h : IsRounded y r) (k : Nat) : |(r : ℚ) - y| ≤ |(k : ℚ) - y| := by
  obtain rfl | hk := eq_or_ne k r
  · exact le_rfl
  · exact h.near.trans (h.le_abs_sub hk)

theorem even_of_tie (h : IsRounded y r) {k : Nat} (hk : k ≠ r)
    (htie : |(k : ℚ) - y| = |(r : ℚ) - y|) : r % 2 = 0 :=
  h.even (le_antisymm h.near (htie ▸ h.le_abs_sub hk))

/-- The midpoint behind an odd number is rounded up. -/
theorem le_odd_iff (h : IsRounded y r) {n : Nat} (hn : n % 2 = 1) :
    r ≤ n ↔ y < n + 1 / 2 := by
  have hnear := abs_le.1 h.near
  constructor
  · intro hle
    have hcast : (r : ℚ) ≤ n := Nat.cast_le.2 hle
    refine lt_of_le_of_ne (by linarith) fun hy => ?_
    have hrn : (r : ℚ) = n := le_antisymm hcast (by linarith)
    have heven := h.even (by rw [hrn, hy, sub_add_cancel_left, abs_neg, abs_of_pos (by norm_num)])
    have : r = n := Nat.cast_injective hrn
    omega
  · intro hy
    have hlt : (r : ℚ) < (n + 1 : Nat) := by
      rw [Nat.cast_succ]
      linarith
    exact Nat.lt_succ_iff.1 (Nat.cast_lt.1 hlt)

end IsRounded

/-! ## The numbers that are doubles -/

namespace Magnitude

/-- The distance of neighbouring magnitudes with a given shift. -/
def spacing (shift : Nat) : ℚ := 2 ^ ((shift : Int) - unitExponent)

/-- The number that a magnitude stands for. -/
def value (m : Magnitude) : ℚ := m.significand * spacing m.shift

/-- The point half a step behind the greatest magnitude, from which on numbers are too large. -/
def overflow : ℚ := 2 ^ 1024 - 2 ^ 970

/-- Correct rounding: no magnitude is nearer to `x`, and where another one is equally near, the
significand is even. -/
structure IsNearest (x : ℚ) (m : Magnitude) : Prop where
  inRange : x < overflow
  nearest : ∀ other : Magnitude, |m.value - x| ≤ |other.value - x|
  even : ∀ other : Magnitude, other ≠ m → |other.value - x| = |m.value - x| →
    m.significand % 2 = 0

theorem spacing_pos (shift : Nat) : 0 < spacing shift := zpow_pos two_pos _

theorem spacing_add (shift k : Nat) : spacing (shift + k) = (2 ^ k : Nat) * spacing shift := by
  have h : ((shift + k : Nat) : Int) - unitExponent = k + ((shift : Int) - unitExponent) := by
    omega
  rw [spacing, h, zpow_add₀ two_ne_zero, zpow_natCast, spacing]
  norm_cast

theorem spacing_eq_div (shift : Nat) : spacing shift = twoTo shift / twoTo unitExponent := by
  have htwo (n : Nat) : (2 : ℚ) ^ (n : Int) = twoTo n := by
    rw [zpow_natCast]
    exact (Nat.cast_pow 2 n).symm
  rw [spacing, zpow_sub₀ two_ne_zero, htwo, htwo]

theorem significand_lt (m : Magnitude) : m.significand < 2 ^ 53 := by
  rcases m.canonical with ⟨-, h⟩ | ⟨-, -, h⟩ <;> exact h

theorem shift_le (m : Magnitude) : m.shift ≤ 2045 := by
  rcases m.canonical with ⟨h, -⟩ | ⟨h, -⟩ <;> omega

/-- A magnitude is a multiple of each spacing up to its own. -/
theorem value_of_shift_le (m : Magnitude) {shift : Nat} (h : shift ≤ m.shift) :
    ∃ k : Nat, m.value = k * spacing shift := by
  refine ⟨m.significand * 2 ^ (m.shift - shift), ?_⟩
  rw [value, ← Nat.add_sub_of_le h, spacing_add, Nat.add_sub_cancel_left, Nat.cast_mul, mul_assoc]

/-- A magnitude with a smaller shift is smaller. -/
theorem value_of_lt_shift (m : Magnitude) {shift : Nat} (h : m.shift < shift) :
    m.value < 2 ^ 52 * spacing shift := by
  obtain ⟨k, rfl⟩ := Nat.exists_eq_add_of_lt h
  have hsig : (m.significand : ℚ) < 2 ^ 53 := by exact_mod_cast m.significand_lt
  have hone : (1 : ℚ) ≤ (2 ^ k : Nat) := by exact_mod_cast Nat.one_le_two_pow
  have hpos := spacing_pos m.shift
  calc m.value < 2 ^ 53 * spacing m.shift := mul_lt_mul_of_pos_right hsig hpos
    _ ≤ 2 ^ 53 * (2 ^ k : Nat) * spacing m.shift := by
      rw [mul_assoc]
      gcongr
      exact le_mul_of_one_le_left hpos.le hone
    _ = 2 ^ 52 * spacing (m.shift + k + 1) := by
      rw [Nat.add_assoc, spacing_add, pow_succ]
      push_cast
      ring

/-- Between two magnitudes lies the whole spacing of the smaller one. -/
theorem add_spacing_le {m other : Magnitude} (h : m.value < other.value) :
    (m.significand + 1) * spacing m.shift ≤ other.value := by
  obtain hshift | hshift := Nat.lt_or_ge other.shift m.shift
  · have hlow : 0x10000000000000 ≤ m.significand := by
      rcases m.canonical with ⟨hzero, -⟩ | ⟨-, hlow, -⟩
      · omega
      · exact hlow
    have hvalue : 2 ^ 52 * spacing m.shift ≤ m.value :=
      mul_le_mul_of_nonneg_right (by exact_mod_cast hlow) (spacing_pos _).le
    linarith [other.value_of_lt_shift hshift]
  · obtain ⟨k, hk⟩ := other.value_of_shift_le hshift
    rw [hk] at h ⊢
    have hlt : (m.significand : ℚ) < k := lt_of_mul_lt_mul_right h (spacing_pos _).le
    have hle : m.significand + 1 ≤ k := Nat.cast_lt.1 hlt
    exact mul_le_mul_of_nonneg_right (by exact_mod_cast hle) (spacing_pos _).le

theorem value_eq_div (m : Magnitude) : m.value = m.numerator / m.denominator := by
  have hden : (m.denominator : ℚ) ≠ 0 := Nat.cast_ne_zero.2 m.denominator_pos.ne'
  have hunit : (twoTo unitExponent : ℚ) ≠ 0 := Nat.cast_ne_zero.2 (twoTo_pos _).ne'
  have hunits : (twoTo unitExponent : ℚ) * m.numerator =
      m.significand * twoTo m.shift * m.denominator := by
    exact_mod_cast m.numerator_units
  rw [value, spacing_eq_div, mul_div_assoc', div_eq_div_iff hunit hden, ← hunits, mul_comm]

theorem value_injective {m other : Magnitude} (h : m.value = other.value) : m = other := by
  have hden (m : Magnitude) : (m.denominator : ℚ) ≠ 0 := Nat.cast_ne_zero.2 m.denominator_pos.ne'
  rw [value_eq_div, value_eq_div, div_eq_div_iff (hden _) (hden _)] at h
  have hsame := nearest?_congr (by exact_mod_cast h) m.denominator_pos other.denominator_pos
  rw [nearest?_self, nearest?_self] at hsame
  exact Option.some.inj hsame

/-- Only one magnitude is correctly rounded: between two with even significands lies one with an odd
significand. -/
theorem IsNearest.unique {x : ℚ} {m other : Magnitude} (h : m.IsNearest x)
    (h' : other.IsNearest x) : m = other := by
  by_contra hne
  wlog hlt : m.value < other.value generalizing m other
  · exact this h' h (Ne.symm hne)
      (lt_of_le_of_ne (not_lt.1 hlt) fun heq => hne (value_injective heq).symm)
  have htie := le_antisymm (h.nearest other) (h'.nearest m)
  have heven := h.even other (Ne.symm hne) htie.symm
  have heven' := h'.even m hne htie
  have hsig := m.significand_lt
  have hcanonical := m.canonical
  let next : Magnitude := ⟨m.significand + 1, m.shift, by omega⟩
  have hvalue : next.value = (m.significand + 1) * spacing m.shift := by
    simp [next, value]
  have hlow : m.value < next.value := by
    rw [hvalue, value]
    exact mul_lt_mul_of_pos_right (lt_add_one _) (spacing_pos _)
  have hhigh : next.value < other.value := by
    refine lt_of_le_of_ne (hvalue ▸ add_spacing_le hlt) fun heq => ?_
    have : m.significand + 1 = other.significand :=
      congrArg significand (value_injective heq)
    omega
  refine absurd (h.nearest next) (not_le.2 ?_)
  obtain heq | heq := abs_eq_abs.1 htie
  · linarith
  · calc |next.value - x| < x - m.value := abs_lt.2 ⟨by linarith, by linarith⟩
      _ ≤ |m.value - x| := by
        rw [abs_sub_comm]
        exact le_abs_self _

/-! ## The nearest magnitude -/

/-- The numbers that are rounded to a multiple of the spacing with a given shift. -/
structure IsScale (x : ℚ) (shift : Nat) : Prop where
  lt : x < 2 ^ 53 * spacing shift
  le : shift ≠ 0 → 2 ^ 52 * spacing shift ≤ x

theorem abs_mul_spacing_sub (k x : ℚ) (shift : Nat) :
    |k * spacing shift - x| = |k - x / spacing shift| * spacing shift := by
  have hpos := spacing_pos shift
  rw [← abs_of_pos hpos, ← abs_mul, abs_of_pos hpos, sub_mul, div_mul_cancel₀ _ hpos.ne']

/-- A number rounded to a multiple of its spacing is correctly rounded. -/
theorem isNearest_of_isRounded {x : ℚ} {shift r : Nat} {m : Magnitude} (hscale : IsScale x shift)
    (hr : IsRounded (x / spacing shift) r) (hvalue : m.value = r * spacing shift)
    (heven : r % 2 = 0 → m.significand % 2 = 0) (hx : x < overflow) : m.IsNearest x := by
  have hpos := spacing_pos shift
  have hmultiple (k : Nat) : |m.value - x| ≤ |k * spacing shift - x| := by
    rw [hvalue, abs_mul_spacing_sub, abs_mul_spacing_sub]
    exact mul_le_mul_of_nonneg_right (hr.nearest k) hpos.le
  have hsmaller {other : Magnitude} (h : other.shift < shift) :
      |m.value - x| < |other.value - x| := by
    have hlow := hscale.le (Nat.ne_zero_of_lt h)
    have hother := other.value_of_lt_shift h
    calc |m.value - x| ≤ |(2 ^ 52 : Nat) * spacing shift - x| := hmultiple _
      _ = x - 2 ^ 52 * spacing shift := by
        rw [abs_sub_comm, abs_of_nonneg] <;> push_cast <;> linarith
      _ < x - other.value := by linarith
      _ ≤ |other.value - x| := by
        rw [abs_sub_comm]
        exact le_abs_self _
  refine ⟨hx, fun other => ?_, fun other hne htie => heven ?_⟩
  · obtain h | h := Nat.lt_or_ge other.shift shift
    · exact (hsmaller h).le
    · obtain ⟨k, hk⟩ := other.value_of_shift_le h
      exact hk ▸ hmultiple k
  · obtain h | h := Nat.lt_or_ge other.shift shift
    · exact absurd htie (hsmaller h).ne'
    · obtain ⟨k, hk⟩ := other.value_of_shift_le h
      have hkr : k ≠ r := fun heq => hne (value_injective (by rw [hk, hvalue, heq]))
      refine hr.even_of_tie hkr ?_
      rw [hk, hvalue, abs_mul_spacing_sub, abs_mul_spacing_sub] at htie
      exact mul_right_cancel₀ hpos.ne' htie

/-- The leading binary digit of a quotient tells its scale. -/
theorem isScale_log2 (num : Nat) {den : Nat} (hden : 0 < den) :
    IsScale (num / den) ((twoTo unitExponent * num / den).log2 - 52) := by
  have hpos : (0 : ℚ) < den := Nat.cast_pos.2 hden
  have hunit : (0 : ℚ) < twoTo unitExponent := Nat.cast_pos.2 (twoTo_pos _)
  have hpow (n k : Nat) : 2 ^ (n + k) = 2 ^ n * twoTo k := Nat.pow_add 2 n k
  generalize hunits : twoTo unitExponent * num / den = units
  constructor
  · have hlt : units < 2 ^ (53 + (units.log2 - 52)) :=
      Nat.lt_of_lt_of_le Nat.lt_log2_self (Nat.pow_le_pow_right two_pos (by omega))
    rw [← hunits, Nat.div_lt_iff_lt_mul hden, hunits, hpow] at hlt
    rw [spacing_eq_div, mul_div_assoc', div_lt_div_iff₀ hpos hunit, mul_comm]
    exact_mod_cast hlt
  · intro hshift
    have hle : 2 ^ (52 + (units.log2 - 52)) ≤ units := by
      rw [Nat.add_sub_of_le (by omega)]
      exact Nat.log2_self_le fun hzero => hshift (by simp [hzero])
    rw [← hunits, Nat.le_div_iff_mul_le hden, hunits, hpow] at hle
    rw [spacing_eq_div, mul_div_assoc', div_le_div_iff₀ hunit hpos, mul_comm (num : ℚ)]
    exact_mod_cast hle

theorem ofParts?_eq_some {significand shift : Nat} {m : Magnitude}
    (h : ofParts? significand shift = some m) : m.significand = significand ∧ m.shift = shift := by
  unfold ofParts? at h
  split at h
  · cases h
    exact ⟨rfl, rfl⟩
  · cases h

theorem ofParts?_eq_none {significand shift : Nat} (h : ofParts? significand shift = none)
    (hlow : shift ≠ 0 → 2 ^ 52 ≤ significand) (hlt : significand < 2 ^ 53) : 2045 < shift := by
  unfold ofParts? at h
  split at h
  · cases h
  · omega

theorem spacing_mono {shift shift' : Nat} (h : shift ≤ shift') : spacing shift ≤ spacing shift' :=
  zpow_le_zpow_right₀ one_le_two (by omega)

theorem overflow_eq : overflow = (2 ^ 53 - 1 / 2) * spacing 2045 := by
  have hspacing : spacing 2045 = 2 * 2 ^ 970 := by
    rw [spacing, unitExponent, ← pow_succ', ← zpow_natCast]
    norm_num
  have htop : (2 : ℚ) ^ 1024 = 2 ^ 54 * 2 ^ 970 := by
    rw [← pow_add]
  rw [overflow, hspacing, htop]
  generalize (2 : ℚ) ^ 970 = step
  ring

/-- The significand that a number is rounded to at its scale. It is `2 ^ 53`, one more than a
significand can be, from the point on that lies half a step below. -/
theorem IsScale.rounded {x : ℚ} {shift r : Nat} (h : IsScale x shift)
    (hr : IsRounded (x / spacing shift) r) :
    (shift ≠ 0 → 2 ^ 52 ≤ r) ∧ r ≤ 2 ^ 53 ∧
      (r < 2 ^ 53 ↔ x < (2 ^ 53 - 1 / 2) * spacing shift) := by
  have hpos := spacing_pos shift
  have hnear := abs_le.1 hr.near
  refine ⟨fun hshift => ?_, ?_, ?_⟩
  · have hlow := (le_div_iff₀ hpos).2 (h.le hshift)
    have hlt : ((2 ^ 52 : Nat) : ℚ) < (r + 1 : Nat) := by
      push_cast
      linarith
    exact Nat.lt_succ_iff.1 (Nat.cast_lt.1 hlt)
  · have hhigh := (div_lt_iff₀ hpos).2 h.lt
    have hlt : (r : ℚ) < (2 ^ 53 + 1 : Nat) := by
      push_cast
      linarith
    exact Nat.lt_succ_iff.1 (Nat.cast_lt.1 hlt)
  · rw [← div_lt_iff₀ hpos, show (r < 2 ^ 53 ↔ r ≤ 2 ^ 53 - 1) by omega,
      hr.le_odd_iff (by norm_num)]
    norm_num

/-- The magnitude that a rounded significand makes at its scale; one of `2 ^ 53` is halved at the
next scale. -/
theorem IsScale.ofParts?_cases {x : ℚ} {shift r : Nat} (h : IsScale x shift)
    (hr : IsRounded (x / spacing shift) r) :
    let parts := if r < 0x20000000000000 then ofParts? r shift
      else ofParts? 0x10000000000000 (shift + 1)
    (∃ m, parts = some m ∧ m.IsNearest x) ∨ (parts = none ∧ overflow ≤ x) := by
  intro parts
  obtain ⟨hlow, hhigh, hlt⟩ := h.rounded hr
  have hsucc (k : Nat) : spacing (k + 1) = 2 * spacing k := by
    rw [spacing_add, pow_one, Nat.cast_ofNat]
  have hfactor : (0 : ℚ) ≤ 2 ^ 53 - 1 / 2 := by norm_num
  by_cases hsig : r < 0x20000000000000
  · have hparts : parts = ofParts? r shift := if_pos hsig
    rw [hparts]
    cases hm : ofParts? r shift with
    | some m =>
      obtain ⟨rfl, rfl⟩ := ofParts?_eq_some hm
      refine .inl ⟨m, rfl, isNearest_of_isRounded h hr rfl id ?_⟩
      rw [overflow_eq]
      exact (hlt.1 hsig).trans_le (mul_le_mul_of_nonneg_left (spacing_mono m.shift_le) hfactor)
    | none =>
      have hshift := ofParts?_eq_none hm hlow hsig
      have hx := h.le (by omega)
      have hmono := spacing_mono (show 2045 + 1 ≤ shift from hshift)
      have hpos := spacing_pos 2045
      refine .inr ⟨rfl, ?_⟩
      rw [overflow_eq]
      linarith [hsucc 2045]
  · have hparts : parts = ofParts? 0x10000000000000 (shift + 1) := if_neg hsig
    have hr53 : r = 2 ^ 53 := by omega
    rw [hparts]
    cases hm : ofParts? 0x10000000000000 (shift + 1) with
    | some m =>
      obtain ⟨hm52, hmshift⟩ := ofParts?_eq_some hm
      have hvalue : m.value = r * spacing shift := by
        rw [value, hm52, hmshift, hsucc, hr53]
        push_cast
        ring
      refine .inl ⟨m, rfl, isNearest_of_isRounded h hr hvalue (fun _ => by rw [hm52]) ?_⟩
      have hmono := spacing_mono m.shift_le
      have hpos := spacing_pos 2045
      rw [hmshift, hsucc] at hmono
      rw [overflow_eq]
      linarith [h.lt]
    | none =>
      have hshift := ofParts?_eq_none hm (by omega) (by omega)
      refine .inr ⟨rfl, ?_⟩
      rw [overflow_eq]
      exact (mul_le_mul_of_nonneg_left (spacing_mono (by omega)) hfactor).trans
        (not_lt.1 fun hx => hsig (hlt.2 hx))

/-- The nearest magnitude is correctly rounded, and there is none just for the numbers from the
overflow point on. -/
theorem nearest?_cases (num : Nat) {den : Nat} (hden : 0 < den) :
    (∃ m, nearest? num den = some m ∧ m.IsNearest (num / den)) ∨
      (nearest? num den = none ∧ overflow ≤ num / den) := by
  let shift := (twoTo unitExponent * num / den).log2 - 52
  have hscale : IsScale (num / den) shift := isScale_log2 num hden
  have hr := isRounded_roundHalfEven (twoTo unitExponent * num)
    (Nat.mul_pos hden (twoTo_pos shift))
  have hquotient : ((twoTo unitExponent * num : Nat) : ℚ) / (den * twoTo shift : Nat) =
      num / den / spacing shift := by
    rw [spacing_eq_div, div_div_div_eq, Nat.cast_mul, Nat.cast_mul, mul_comm (num : ℚ)]
  rw [hquotient] at hr
  exact hscale.ofParts?_cases hr

end Magnitude

/-! ## Decimals -/

/-- The number that a decimal stands for. -/
def Decimal.value (d : Decimal) : ℚ := d.digits * 10 ^ d.exponent

theorem Decimal.value_eq_div (d : Decimal) : d.value = d.numerator / d.denominator := by
  have hten (n : Nat) : (tenTo n : ℚ) = 10 ^ (n : Int) := by
    rw [zpow_natCast]
    exact Nat.cast_pow 10 n
  have hexponent : d.exponent = d.exponent.toNat - (-d.exponent).toNat := by
    omega
  rw [value, numerator, denominator, Nat.cast_mul, hten, hten, mul_div_assoc,
    ← zpow_sub₀ (by norm_num), ← hexponent]

namespace Double

theorem ofDecimal_cases (negative : Bool) (d : Decimal) :
    (∃ m, ofDecimal negative d = .finite negative m ∧ m.IsNearest d.value) ∨
      (ofDecimal negative d = .infinite negative ∧ Magnitude.overflow ≤ d.value) := by
  have hcases := Magnitude.nearest?_cases d.numerator (tenTo_pos (-d.exponent).toNat)
  rw [← Decimal.denominator, ← d.value_eq_div] at hcases
  unfold ofDecimal Decimal.magnitude?
  obtain ⟨m, hm, hnearest⟩ | ⟨hm, hx⟩ := hcases
  · exact .inl ⟨m, by rw [hm], hnearest⟩
  · exact .inr ⟨by rw [hm], hx⟩

/-- A decimal reads as the correctly rounded double. -/
theorem ofDecimal_eq_finite_iff {negative : Bool} {d : Decimal} {m : Magnitude} :
    ofDecimal negative d = .finite negative m ↔ m.IsNearest d.value := by
  obtain ⟨m', hm', hnearest⟩ | ⟨hinf, hx⟩ := ofDecimal_cases negative d
  · rw [hm']
    constructor
    · rintro ⟨⟩
      exact hnearest
    · intro h
      rw [hnearest.unique h]
  · rw [hinf]
    constructor
    · rintro ⟨⟩
    · intro h
      exact absurd h.inRange (not_lt.2 hx)

/-- One tenth reads as a double that is a little greater. -/
example : ofDecimal false ⟨1, -1⟩ = .finite false ⟨0x1999999999999a, 1018, by decide⟩ := by
  decide +kernel

/-- A decimal reads as infinity just from the overflow point on. -/
theorem ofDecimal_eq_infinite_iff {negative : Bool} {d : Decimal} :
    ofDecimal negative d = .infinite negative ↔ Magnitude.overflow ≤ d.value := by
  obtain ⟨m, hm, hnearest⟩ | ⟨hinf, hx⟩ := ofDecimal_cases negative d
  · rw [hm]
    constructor
    · rintro ⟨⟩
    · intro hx
      exact absurd hnearest.inRange (not_lt.2 hx)
  · exact iff_of_true hinf hx

end Double

end RuleLang
