/-!
Double precision numbers as exact values. The magnitude of a finite double counts units of
2 ^ (-1074), the least positive double, so that every magnitude is a natural number of units and
rounding stays within the natural numbers. A decimal reads as the double nearest to it; of two
equally near ones the one with the even significand is taken.
-/
namespace RuleLang

def twoTo (n : Nat) : Nat := Nat.pow 2 n

def tenTo (n : Nat) : Nat := Nat.pow 10 n

theorem twoTo_pos (n : Nat) : 0 < twoTo n := Nat.pow_pos (by decide)

theorem tenTo_pos (n : Nat) : 0 < tenTo n := Nat.pow_pos (by decide)

/-- A finite magnitude of `significand * 2 ^ shift` units. Each magnitude has one such form: the
significand is below `2 ^ 53`, and from `2 ^ 52` units on it has all of its 53 binary digits. -/
structure Magnitude where
  significand : Nat
  shift : Nat
  canonical : (shift = 0 ∧ significand < 0x20000000000000) ∨
    (shift ≤ 2045 ∧ 0x10000000000000 ≤ significand ∧ significand < 0x20000000000000)
  deriving DecidableEq

/-- A double precision number; the payload of a NaN is not kept. -/
inductive Double where
  | nan
  | infinite (negative : Bool)
  | finite (negative : Bool) (magnitude : Magnitude)
  deriving DecidableEq

/-- The natural number nearest to `num / den`, the even one of two equally near. -/
def roundHalfEven (num den : Nat) : Nat :=
  let low := num / den
  let twice := 2 * (num % den)
  if twice < den ∨ (twice = den ∧ low % 2 = 0) then low else low + 1

namespace Magnitude

/-- The binary exponent of one unit, with its sign dropped. -/
def unitExponent : Nat := 1074

def ofParts? (significand shift : Nat) : Option Magnitude :=
  if h : (shift = 0 ∧ significand < 0x20000000000000) ∨
      (shift ≤ 2045 ∧ 0x10000000000000 ≤ significand ∧ significand < 0x20000000000000) then
    some ⟨significand, shift, h⟩
  else none

/-- The magnitude nearest to `num / den`, or nothing where rounding leaves the finite range. -/
def nearest? (num den : Nat) : Option Magnitude :=
  let units := twoTo unitExponent * num
  let shift := (units / den).log2 - 52
  let significand := roundHalfEven units (den * twoTo shift)
  if significand < 0x20000000000000 then ofParts? significand shift
  else ofParts? 0x10000000000000 (shift + 1)

def zero : Magnitude := ⟨0, 0, by decide⟩

/-- The magnitude is `numerator / denominator`. -/
def numerator (m : Magnitude) : Nat := m.significand * twoTo (m.shift - unitExponent)

def denominator (m : Magnitude) : Nat := twoTo (unitExponent - m.shift)

theorem denominator_pos (m : Magnitude) : 0 < m.denominator := twoTo_pos _

def toNat? (m : Magnitude) : Option Nat :=
  if m.numerator % m.denominator = 0 then some (m.numerator / m.denominator) else none

end Magnitude

/-- The number `digits * 10 ^ exponent`. -/
structure Decimal where
  digits : Nat
  exponent : Int
  deriving DecidableEq, Repr

namespace Decimal

/-- The decimal is `numerator / denominator`. -/
def numerator (d : Decimal) : Nat := d.digits * tenTo d.exponent.toNat

def denominator (d : Decimal) : Nat := tenTo (-d.exponent).toNat

def magnitude? (d : Decimal) : Option Magnitude := Magnitude.nearest? d.numerator d.denominator

end Decimal

namespace Double

/-- The double nearest to a decimal; beyond the greatest finite double lies infinity. -/
def ofDecimal (negative : Bool) (d : Decimal) : Double :=
  match d.magnitude? with
  | some m => .finite negative m
  | none => .infinite negative

/-- The double that a decimal with any exponent reads as. Where the leading digit stands more than
400 places from the point, the answer is infinity or zero without computing the power of ten. -/
def ofScaled (negative : Bool) (d : Decimal) : Double :=
  let places := (Nat.toDigits 10 d.digits).length + d.exponent
  if d.digits = 0 ∨ places < -400 then .finite negative .zero
  else if 400 < places then .infinite negative
  else ofDecimal negative d

def toInt? : Double → Option Int
  | .finite negative m => m.toNat?.map fun n => if negative then -(n : Int) else n
  | _ => none

def isNegative : Double → Bool
  | .nan => false
  | .infinite negative => negative
  | .finite negative _ => negative

end Double

end RuleLang
