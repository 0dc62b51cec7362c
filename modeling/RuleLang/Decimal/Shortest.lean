import RuleLang.Decimal.Double

/-!
The shortest decimal of a magnitude: of the decimals with the fewest digits that read back as the
magnitude, the one nearest to it. Every magnitude has one, since its exact expansion reads back.
-/
namespace RuleLang

namespace Decimal

def trimmed (d : Decimal) : Decimal :=
  let zeros := ((Nat.toDigits 10 d.digits).reverse.takeWhile (· = '0')).length
  ⟨d.digits / tenTo zeros, d.exponent + zeros⟩

end Decimal

namespace Magnitude

/-- How many digits the magnitude has before its point; a negative count is the number of zeros
between the point and the first digit. -/
def leadingPlace (m : Magnitude) : Int :=
  (Nat.toDigits 10 (m.numerator * tenTo 400 / m.denominator)).length - 400

/-- The two neighbours of the magnitude among the multiples of `10 ^ exponent`, the nearer first and
the even one first where they are equally near. -/
def neighbours (m : Magnitude) (exponent : Int) : List Decimal :=
  let num := m.numerator * tenTo (-exponent).toNat
  let den := m.denominator * tenTo exponent.toNat
  let low := num / den
  if roundHalfEven num den = low then [⟨low, exponent⟩, ⟨low + 1, exponent⟩]
  else [⟨low + 1, exponent⟩, ⟨low, exponent⟩]

def expansion (m : Magnitude) : Decimal :=
  let places := unitExponent - m.shift
  ⟨m.numerator * Nat.pow 5 places, -(places : Int)⟩

/-- The decimals that may be the shortest one, those with fewer digits first. -/
def candidates (m : Magnitude) : List Decimal :=
  (List.range 17).flatMap fun count => m.neighbours (m.leadingPlace - (count + 1 : Nat))

/-- The first candidate that reads back, or else the full expansion. -/
def shortest (m : Magnitude) : Decimal :=
  if m.significand = 0 then ⟨0, 0⟩
  else
    match (m.candidates.map Decimal.trimmed).find? (·.magnitude? = some m) with
    | some d => d
    | none => m.expansion.trimmed

end Magnitude

end RuleLang
