import RuleLang.Moment

/-!
Why YAML text has no value. A text is refused as a whole where it is not well-formed, and for a
scalar that has the form of a number, a moment or a character but is none.
-/
namespace RuleLang.Yaml

/-- Why a scalar of a form has no value of that form. -/
inductive ValueFault where
  | noDigit (base : Nat)
  | tooManyDigits (count : Nat)
  /-- An escaped number is beyond that of the last character. -/
  | noCharacter
  | moment (fault : MomentFault)
  deriving DecidableEq, Repr

def ValueFault.message : ValueFault → String
  | .noDigit base => "invalid literal for int() with base " ++ toString base ++ ": ''"
  | .tooManyDigits count =>
    "Exceeds the limit (4300 digits) for integer string conversion: value has " ++
      toString count ++ " digits; use sys.set_int_max_str_digits() to increase the limit"
  | .noCharacter => "chr() arg not in range(0x110000)"
  | .moment fault => fault.message

inductive Fault where
  | malformed
  | value (fault : ValueFault)
  deriving DecidableEq, Repr

end RuleLang.Yaml
