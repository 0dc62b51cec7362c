import RuleLang.Decimal.Shortest

/-!
Two written forms of a double, both of its shortest decimal. The positional form writes every digit
on its place and always has a point. The compact form is positional for moderate magnitudes and has
an exponent otherwise.
-/
namespace RuleLang

namespace Decimal

/-- The digits on their places, with at least one digit on each side of the point. -/
def positional (d : Decimal) : List Char :=
  let digits := Nat.toDigits 10 d.digits
  match d.exponent with
  | .ofNat zeros => digits ++ List.replicate zeros '0' ++ ['.', '0']
  | .negSucc n =>
    let places := n + 1
    let padded := List.replicate (places + 1 - digits.length) '0' ++ digits
    let whole := padded.length - places
    padded.take whole ++ '.' :: padded.drop whole

/-- One digit, the others after a point, and the exponent with its sign and at least two digits. -/
def scientific (d : Decimal) : List Char :=
  let digits := Nat.toDigits 10 d.digits
  let exponent := d.exponent + digits.length - 1
  let point := if digits.length = 1 then [] else ['.']
  let sign := if exponent < 0 then '-' else '+'
  let power := Nat.toDigits 10 exponent.natAbs
  digits.take 1 ++ point ++ digits.drop 1 ++
    'e' :: sign :: (List.replicate (2 - power.length) '0' ++ power)

/-- Positional where the leading digit stands for a power of ten from -4 to 15. -/
def compact (d : Decimal) : List Char :=
  let leading := d.exponent + (Nat.toDigits 10 d.digits).length - 1
  if -4 ≤ leading ∧ leading < 16 then d.positional else d.scientific

end Decimal

structure Double.Style where
  magnitude : Decimal → List Char
  nan : String
  infinity : String

namespace Double

/-- The text of a double in a style; a sign stands in front of negative numbers only. -/
def write (style : Style) (x : Double) : String :=
  let sign := if x.isNegative then "-" else ""
  match x with
  | .nan => style.nan
  | .infinite _ => sign ++ style.infinity
  | .finite _ m => sign ++ String.ofList (style.magnitude m.shortest)

def Style.compact : Style := ⟨Decimal.compact, "nan", "inf"⟩

/-- The form of number literals in source text, which has no exponents. -/
def Style.source : Style := ⟨Decimal.positional, "NaN.0", "Infinity.0"⟩

def Style.json : Style := ⟨Decimal.compact, "NaN", "Infinity"⟩

end Double

end RuleLang
