import RuleLang.Text.Ranges

/-!
Blank characters: those of the bidirectional types B, S and WS or of the category Zs of Unicode
14.0.
-/
namespace RuleLang.Text

def blankRanges : List (Nat × Nat) := [
  (0x09, 0x0D), (0x1C, 0x20), (0x85, 0x85), (0xA0, 0xA0), (0x1680, 0x1680), (0x2000, 0x200A),
  (0x2028, 0x2029), (0x202F, 0x202F), (0x205F, 0x205F), (0x3000, 0x3000)]

/-- Whether the character leaves no mark at the end of a line. -/
def isBlank (c : Char) : Bool := inRanges c.toNat blankRanges

/-- The text without the blank characters at its end. -/
def trimEnd (cs : List Char) : List Char := (cs.reverse.dropWhile isBlank).reverse

end RuleLang.Text
