import RuleLang.Number

/-!
The settings of a parse.
-/
namespace RuleLang

/-- The greatest number of nested levels in an expression, and the file name to show for a source
text that has none. -/
structure Options where
  maxDepth : WholeNumber := .int 64
  filename : String := "<string>"
  deriving DecidableEq

namespace Options

/-- The levels that an expression may use; none where the depth is not positive. -/
def levels (o : Options) : Nat := o.maxDepth.value.toNat

def fileFor (o : Options) : Option String → String
  | none => o.filename
  | some name => if name = "" then o.filename else name

end Options

end RuleLang
