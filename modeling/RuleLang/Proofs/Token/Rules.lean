import RuleLang.Proofs.Decimal.Rounding
import RuleLang.Proofs.Token.Words

/-!
The lexical grammar, apart from any reader. Each sort of word is told by its first character and is
the longest beginning of the text that its rule allows; a text is cut into words and the blanks and
comments between them.

    Number     := Digit+ ( "." Digit+ )?
    String     := '"' ( any character but '"' and "\" | "\" any character )* '"'
    Name       := ( Letter | "_" ) ( Letter | Digit | "_" )*
    Mark       := "==" | "!=" | "<=" | ">=" | "=" | "<" | ">" | "!" | "+" | "-" | "*" | "/"
                | ";" | "," | "(" | ")"
-/
namespace RuleLang.Lexical

/-- The longest beginning of a text that has a property. -/
structure Longest (P : List Char → Prop) (text lexeme : List Char) : Prop where
  holds : P lexeme
  front : lexeme <+: text
  greatest : ∀ other, P other → other <+: text → other.length ≤ lexeme.length

theorem Longest.unique {P : List Char → Prop} {text lexeme other : List Char}
    (h : Longest P text lexeme) (h' : Longest P text other) : lexeme = other := by
  have hlength : lexeme.length = other.length :=
    Nat.le_antisymm (h'.greatest _ h.holds h.front) (h.greatest _ h'.holds h'.front)
  rw [List.prefix_iff_eq_take.1 h.front, List.prefix_iff_eq_take.1 h'.front, hlength]

/-! ## Strings -/

/-- What stands between the quotes of a string, and the text that it stands for. Three escapes stand
for one character; any other one stands for its own spelling. -/
inductive Body : List Char → List Char → Prop where
  | empty : Body [] []
  | plain {c : Char} {body value : List Char} (hquote : c ≠ '"') (hbackslash : c ≠ '\\')
      (h : Body body value) : Body (c :: body) (c :: value)
  | quote {body value : List Char} (h : Body body value) :
      Body ('\\' :: '"' :: body) ('"' :: value)
  | backslash {body value : List Char} (h : Body body value) :
      Body ('\\' :: '\\' :: body) ('\\' :: value)
  | lineFeed {body value : List Char} (h : Body body value) :
      Body ('\\' :: 'n' :: body) ('\n' :: value)
  | unknown {c : Char} {body value : List Char} (hc : c ∉ ['"', '\\', 'n']) (h : Body body value) :
      Body ('\\' :: c :: body) ('\\' :: c :: value)

/-- The word whose opening quote precedes the text. Without a closing quote it is invalid and
reaches to the end of the text. -/
inductive StringWord : List Char → Word → Prop where
  | closed {body value rest : List Char} (h : Body body value) :
      StringWord (body ++ '"' :: rest)
        ⟨.string, '"' :: body ++ ['"'], .text (String.ofList value), []⟩
  | unclosed {cs : List Char} (h : ∀ body value rest, Body body value → cs ≠ body ++ '"' :: rest) :
      StringWord cs ⟨.invalid, '"' :: cs, .null, []⟩

/-! ## Numbers -/

def IsDigits (cs : List Char) : Prop := cs ≠ [] ∧ ∀ c ∈ cs, c.isDigit = true

/-- Digits, or digits on both sides of a point. -/
inductive IsNumeral : List Char → Prop where
  | integer {digits : List Char} (h : IsDigits digits) : IsNumeral digits
  | decimal {whole fraction : List Char} (hwhole : IsDigits whole) (hfraction : IsDigits fraction) :
      IsNumeral (whole ++ '.' :: fraction)

/-- The number that digits on both sides of a point stand for. -/
def decimalValue (whole fraction : List Char) : ℚ :=
  Nat.ofDigitChars 10 whole 0 + Nat.ofDigitChars 10 fraction 0 / 10 ^ fraction.length

/-- The word of a text that begins with a digit. Digits with a point behind them and no digit behind
that are invalid together with the point. So are integers of more than 4300 digits, and decimals
that would be rounded beyond the greatest double. -/
inductive NumberWord (text : List Char) : Word → Prop where
  | integer {digits : List Char} (hdigits : IsDigits digits) (h : Longest IsNumeral text digits)
      (hpoint : ¬digits ++ ['.'] <+: text) (hlength : digits.length ≤ 4300) :
      NumberWord text ⟨.number, digits, .int (Nat.ofDigitChars 10 digits 0), []⟩
  | tooLong {digits : List Char} (hdigits : IsDigits digits) (h : Longest IsNumeral text digits)
      (hpoint : ¬digits ++ ['.'] <+: text) (hlength : 4300 < digits.length) :
      NumberWord text ⟨.invalid, digits, .null, []⟩
  | decimal {whole fraction : List Char} {m : Magnitude} (hwhole : IsDigits whole)
      (hfraction : IsDigits fraction) (h : Longest IsNumeral text (whole ++ '.' :: fraction))
      (hvalue : m.IsNearest (decimalValue whole fraction)) :
      NumberWord text ⟨.number, whole ++ '.' :: fraction, .float (.finite false m), []⟩
  | tooLarge {whole fraction : List Char} (hwhole : IsDigits whole) (hfraction : IsDigits fraction)
      (h : Longest IsNumeral text (whole ++ '.' :: fraction))
      (hvalue : Magnitude.overflow ≤ decimalValue whole fraction) :
      NumberWord text ⟨.invalid, whole ++ '.' :: fraction, .null, []⟩
  | malformed {digits : List Char} (hdigits : IsDigits digits) (h : Longest IsNumeral text digits)
      (hpoint : digits ++ ['.'] <+: text) :
      NumberWord text ⟨.invalid, digits ++ ['.'], .null, []⟩

/-! ## Names and marks -/

def IsNameStart (c : Char) : Prop := Text.isLetter c = true ∨ c = '_'

def IsNamePart (c : Char) : Prop := Text.isLetter c = true ∨ c.isDigit = true ∨ c = '_'

/-- A run of letters, digits and underscores that does not begin with a digit. -/
def IsRun (cs : List Char) : Prop :=
  ∃ c rest, cs = c :: rest ∧ IsNameStart c ∧ ∀ d ∈ rest, IsNamePart d

/-- The reserved words, each with its kind. -/
def reserved : List (String × Token.Kind) :=
  [("var", .var), ("and", .and), ("or", .or), ("true", .true), ("false", .false)]

/-- The word of a text that begins with a letter or an underscore. Only the whole run may be a
reserved word. -/
inductive NameWord (text : List Char) : Word → Prop where
  | reserved {run : List Char} {kind : Token.Kind} (h : Longest IsRun text run)
      (hkind : (String.ofList run, kind) ∈ reserved) : NameWord text ⟨kind, run, .null, []⟩
  | name {run : List Char} (h : Longest IsRun text run)
      (hname : ∀ kind, (String.ofList run, kind) ∉ reserved) :
      NameWord text ⟨.ident, run, .null, []⟩

/-- The operators and punctuation marks, each with its kind. -/
def marks : List (List Char × Token.Kind) :=
  [(['=', '='], .equalEqual), (['!', '='], .bangEqual), (['<', '='], .lessEqual),
   (['>', '='], .greaterEqual), (['='], .equal), (['<'], .less), (['>'], .greater),
   (['!'], .bang), (['+'], .plus), (['-'], .minus), (['*'], .star), (['/'], .slash),
   ([';'], .semicolon), ([','], .comma), (['('], .lparen), ([')'], .rparen)]

def IsMark (cs : List Char) : Prop := ∃ kind, (cs, kind) ∈ marks

/-- The word of any other text: a mark, or a single character that begins none. -/
inductive MarkWord (text : List Char) : Word → Prop where
  | mark {lexeme : List Char} {kind : Token.Kind} (h : Longest IsMark text lexeme)
      (hkind : (lexeme, kind) ∈ marks) : MarkWord text ⟨kind, lexeme, .null, []⟩
  | unexpected {c : Char} (hc : [c] <+: text) (h : ∀ lexeme, IsMark lexeme → ¬lexeme <+: text) :
      MarkWord text ⟨.invalid, [c], .null, []⟩

/-! ## Texts -/

/-- The word at the beginning of a text, which its first character tells the sort of. -/
inductive WordAt : List Char → Word → Prop where
  | string {cs : List Char} {w : Word} (h : StringWord cs w) : WordAt ('"' :: cs) w
  | number {c : Char} {cs : List Char} {w : Word} (hc : c.isDigit = true)
      (h : NumberWord (c :: cs) w) : WordAt (c :: cs) w
  | name {c : Char} {cs : List Char} {w : Word} (hc : IsNameStart c)
      (h : NameWord (c :: cs) w) : WordAt (c :: cs) w
  | mark {c : Char} {cs : List Char} {w : Word} (hquote : c ≠ '"') (hdigit : c.isDigit = false)
      (hname : ¬IsNameStart c) (h : MarkWord (c :: cs) w) : WordAt (c :: cs) w

def blanks : List Char := [' ', '\t', '\r', '\n']

/-- The text from an offset on, cut into words, each with its own offset. Blanks and comments, which
end in front of a line feed, stand between the words. -/
inductive Cut : Int → List Char → List (Int × Word) → Prop where
  | nil {n : Int} : Cut n [] []
  | blank {n : Int} {c : Char} {cs : List Char} {words : List (Int × Word)}
      (hc : c ∈ blanks) (h : Cut (n + 1) cs words) : Cut n (c :: cs) words
  | comment {n : Int} {body cs : List Char} {words : List (Int × Word)} (hbody : '\n' ∉ body)
      (hends : ∀ c ∈ cs.head?, c = '\n') (h : Cut (n + ('/' :: '/' :: body).length) cs words) :
      Cut n ('/' :: '/' :: body ++ cs) words
  | word {n : Int} {c : Char} {cs rest : List Char} {w : Word} {words : List (Int × Word)}
      (hblank : c ∉ blanks) (hcomment : ¬['/', '/'] <+: c :: cs) (hw : WordAt (c :: cs) w)
      (hrest : w.lexeme ++ rest = c :: cs) (h : Cut (n + w.lexeme.length) rest words) :
      Cut n (c :: cs) ((n, w) :: words)

end RuleLang.Lexical
