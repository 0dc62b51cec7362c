import RuleLang.Decimal.Layout

/-!
Numbers and the values of literals. An integer and a double of equal value are different numbers.
-/
namespace RuleLang

inductive Number where
  | int (value : Int)
  | float (value : Double)
  deriving DecidableEq

namespace Number

/-- Integers in decimal digits, doubles in the given style. -/
def write (style : Double.Style) : Number → String
  | .int n => toString n
  | .float x => x.write style

def toInt? : Number → Option Int
  | .int n => some n
  | .float x => x.toInt?

/-- The greatest number of digits of an integer that is written out. -/
def maxWrittenDigits : Nat := 4300

/-- Whether a number can be written out: an integer may have too many digits. -/
def isWritable : Number → Bool
  | .int n => n.natAbs < tenTo maxWrittenDigits
  | .float _ => true

def unwritable : String :=
  "Exceeds the limit (" ++ toString maxWrittenDigits ++ " digits) for integer string " ++
    "conversion; use sys.set_int_max_str_digits() to increase the limit"

end Number

/-- A number of integral value, which may be a double. -/
structure WholeNumber where
  number : Number
  whole : number.toInt?.isSome
  deriving DecidableEq

namespace WholeNumber

instance : Coe WholeNumber Number := ⟨number⟩

def int (n : Int) : WholeNumber := ⟨.int n, rfl⟩

def ofNumber? (n : Number) : Option WholeNumber :=
  if h : n.toInt?.isSome then some ⟨n, h⟩ else none

@[simp] theorem ofNumber?_number (n : WholeNumber) : ofNumber? n.number = some n :=
  dif_pos n.whole

def value (n : WholeNumber) : Int := n.number.toInt?.get n.whole

@[simp] theorem value_int (n : Int) : (int n).value = n := rfl

end WholeNumber

/-- What a literal or a token stands for; `null` where it stands for nothing but itself. -/
inductive Scalar where
  | null
  | bool (value : Bool)
  | number (value : Number)
  | text (value : String)
  deriving DecidableEq

namespace Scalar

abbrev int (n : Int) : Scalar := .number (.int n)

abbrev float (x : Double) : Scalar := .number (.float x)

end Scalar

end RuleLang
