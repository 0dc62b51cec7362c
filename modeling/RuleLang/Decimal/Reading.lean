import RuleLang.Decimal.Double

/-!
Reading doubles from decimal text with an optional sign, an optional point and an optional exponent.
-/
namespace RuleLang.Double

def readExponent? (text : List Char) : Option Int :=
  let (negative, digits) :=
    match text with
    | '-' :: rest => (true, rest)
    | '+' :: rest => (false, rest)
    | rest => (false, rest)
  if digits.isEmpty || !digits.all Char.isDigit then none
  else
    let n : Int := Nat.ofDigitChars 10 digits 0
    some (if negative then -n else n)

/-- The decimal of a text without a sign, such as `12`, `.5`, `3.` or `1.5e+3`. -/
def readDecimal? (text : List Char) : Option Decimal :=
  let whole := text.takeWhile Char.isDigit
  let rest := text.dropWhile Char.isDigit
  let (fraction, rest) :=
    match rest with
    | '.' :: more => (more.takeWhile Char.isDigit, more.dropWhile Char.isDigit)
    | _ => ([], rest)
  let exponent? :=
    match rest with
    | [] => some 0
    | e :: more => if e = 'e' || e = 'E' then readExponent? more else none
  if whole.isEmpty && fraction.isEmpty then none
  else
    exponent?.map fun exponent =>
      ⟨Nat.ofDigitChars 10 (whole ++ fraction) 0, exponent - fraction.length⟩

/-- The double of a text: a decimal or one of the words for the others, behind an optional sign. -/
def read? (text : List Char) : Option Double :=
  let (negative, rest) :=
    match text with
    | '-' :: rest => (true, rest)
    | '+' :: rest => (false, rest)
    | rest => (false, rest)
  if rest = ['i', 'n', 'f'] then some (.infinite negative)
  else if rest = ['n', 'a', 'n'] then some .nan
  else (readDecimal? rest).map (ofScaled negative)

end RuleLang.Double
