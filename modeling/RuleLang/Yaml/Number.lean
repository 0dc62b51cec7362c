import RuleLang.Decimal.Reading
import RuleLang.Text.Separated
import RuleLang.Yaml.Scalar

/-!
The forms of numbers among plain scalars, and their values. Integers may be binary, octal,
hexadecimal or sexagesimal, doubles decimal or sexagesimal; underscores between digits do not count.
-/
namespace RuleLang.Yaml

/-- A sign in front of a number: whether it is negative, and the number. -/
def splitSign : List Char → Bool × List Char
  | '-' :: rest => (true, rest)
  | '+' :: rest => (false, rest)
  | rest => (false, rest)

/-- Whether all characters are of a class or underscores, and there is one. -/
def isRun (p : Char → Bool) (cs : List Char) : Bool := !cs.isEmpty && cs.all fun c => p c || c = '_'

def isProperRun (p : Char → Bool) (cs : List Char) : Bool := isRun p cs && cs.head?.any p

/-- A place of a sexagesimal number behind the first one: one digit, or two up to 59. -/
def isSixtieth : List Char → Bool
  | [c] => c.isDigit
  | [c, d] => '0' ≤ c && c ≤ '5' && d.isDigit
  | _ => false

/-- The places of a sexagesimal number whose first place satisfies `p`. -/
def isSexagesimal (p : List Char → Bool) (cs : List Char) : Bool :=
  match Text.separated ':' cs with
  | whole :: places => p whole && !places.isEmpty && places.all isSixtieth
  | [] => false

def isBinaryDigit (c : Char) : Bool := c = '0' || c = '1'

def isOctalDigit (c : Char) : Bool := '0' ≤ c && c ≤ '7'

def isHexDigit (c : Char) : Bool := (hexValue? c).isSome

def isPositiveRun (cs : List Char) : Bool := isProperRun Char.isDigit cs && cs.head? ≠ some '0'

def isInteger (cs : List Char) : Bool :=
  match cs with
  | ['0'] => true
  | '0' :: 'b' :: ds => isRun isBinaryDigit ds
  | '0' :: 'x' :: ds => isRun isHexDigit ds
  | '0' :: ds => isRun isOctalDigit ds
  | cs => isPositiveRun cs || isSexagesimal isPositiveRun cs

/-- The number of digits up to which a decimal integer has a value. -/
def maxIntegerDigits : Nat := 4300

def readDigits (ds : List Char) : Except ValueFault Nat :=
  if maxIntegerDigits < ds.length then .error (.tooManyDigits ds.length)
  else .ok (Nat.ofDigitChars 10 ds 0)

/-- The number of a text of digits in another base, which needs a digit. -/
def readBase (base : Nat) (ds : List Char) : Except ValueFault Nat :=
  if ds.isEmpty then .error (.noDigit base)
  else .ok (ds.foldl (fun n c => n * base + (hexValue? c).getD 0) 0)

def readInteger (cs : List Char) : Except ValueFault Nat :=
  match cs.filter (· ≠ '_') with
  | ['0'] => .ok 0
  | '0' :: 'b' :: ds => readBase 2 ds
  | '0' :: 'x' :: ds => readBase 16 ds
  | '0' :: ds => readBase 8 ('0' :: ds)
  | ds => do
    let places ← (Text.separated ':' ds).mapM readDigits
    return places.foldl (fun n place => n * 60 + place) 0

/-- Whether nothing is written, or an exponent with its sign. -/
def isExponent : List Char → Bool
  | [] => true
  | e :: sign :: ds =>
    (e = 'e' || e = 'E') && (sign = '+' || sign = '-') && !ds.isEmpty && ds.all Char.isDigit
  | _ => false

/-- Digits and underscores, and then nothing or an exponent. -/
def isFraction (cs : List Char) : Bool :=
  isExponent (cs.dropWhile fun c => c.isDigit || c = '_')

def isDouble (signed : Bool) (cs : List Char) : Bool :=
  let whole := cs.takeWhile (· ≠ '.')
  match cs.dropWhile (· ≠ '.') with
  | _ :: fraction =>
    let infinite := fraction ∈ ["inf".toList, "Inf".toList, "INF".toList]
    let undefined := fraction ∈ ["nan".toList, "NaN".toList, "NAN".toList]
    let bare := fraction.head?.any Char.isDigit && isFraction fraction
    if whole.isEmpty then infinite || (!signed && (undefined || bare))
    else
      (isProperRun Char.isDigit whole && isFraction fraction) ||
        (isSexagesimal (isProperRun Char.isDigit) whole &&
          fraction.all fun c => c.isDigit || c = '_')
  | [] => false

/-- The sum of two doubles that are not negative. -/
def addDoubles : Double → Double → Double
  | .finite _ m, .finite _ n =>
    match Magnitude.nearest? (m.numerator * n.denominator + n.numerator * m.denominator)
        (m.denominator * n.denominator) with
    | some sum => .finite false sum
    | none => .infinite false
  | x, .finite .. => x
  | _, y => y

def scaleDouble (k : Nat) : Double → Double
  | .finite _ m =>
    match Magnitude.nearest? (k * m.numerator) m.denominator with
    | some product => .finite false product
    | none => .infinite false
  | x => x

/-- The sum of the places of a sexagesimal double, from the last one on. -/
def sumPlaces : (base : Nat) → Double → List Double → Double
  | _, sum, [] => sum
  | base, sum, x :: xs => sumPlaces (base * 60) (addDoubles sum (scaleDouble base x)) xs

def readDouble (negative : Bool) (cs : List Char) : Double :=
  let read (ds : List Char) : Double :=
    match Double.readDecimal? ds with
    | some d => .ofScaled negative d
    | none => .nan
  match cs.filter (· ≠ '_') with
  | '.' :: c :: ds =>
    if c = 'i' ∨ c = 'I' then .infinite negative
    else if c = 'n' ∨ c = 'N' then .nan
    else read ('.' :: c :: ds)
  | ds =>
    match Text.separated ':' ds with
    | [ds] => read ds
    | places =>
      let parts := places.reverse.map fun p =>
        (Double.readDecimal? p).elim .nan (Double.ofScaled false)
      match sumPlaces 1 (.finite false .zero) parts with
      | .finite _ m => .finite negative m
      | .infinite _ => .infinite negative
      | .nan => .nan

end RuleLang.Yaml
