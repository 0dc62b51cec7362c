import RuleLang.Text.Letter
import RuleLang.Text.Quoted
import RuleLang.Token

/-!
The lexical rules: which word begins at a character that is neither blank nor the start of a
comment. A word is the longest text that its rule allows, knows nothing of its place in the source,
and together with what follows it gives back the text that was read (`read_append`).
-/
namespace RuleLang

inductive LexicalFault where
  | unexpectedCharacter (c : Char)
  | unknownEscape (c : Char)
  | unterminatedString
  | malformedNumber (lexeme : String)
  | numberTooLarge
  deriving DecidableEq

def LexicalFault.message : LexicalFault → String
  | .unexpectedCharacter c => "Unexpected character: " ++ Text.quoted (String.singleton c)
  | .unknownEscape c =>
    "Unknown escape sequence '\\" ++ String.singleton c ++ "' in string literal"
  | .unterminatedString => "Unterminated string literal"
  | .malformedNumber lexeme =>
    "Malformed number literal " ++ Text.quoted lexeme ++ ": expected digits after '.'"
  | .numberTooLarge => "Number literal too large"

/-- A fault and the part of the lexeme that it is about: `width` characters behind the first
`skip` ones. -/
structure Flaw where
  fault : LexicalFault
  skip : Nat
  width : Nat
  deriving DecidableEq

/-- A token without its place. -/
structure Word where
  kind : Token.Kind
  lexeme : List Char
  value : Scalar
  flaws : List Flaw
  deriving DecidableEq

/-- A character of a string literal as it is written. -/
inductive StringPiece where
  | raw (c : Char)
  | escaped (c : Char)
  deriving DecidableEq

namespace StringPiece

def written : StringPiece → List Char
  | .raw c => [c]
  | .escaped c => ['\\', c]

/-- The characters that may stand behind a backslash. -/
def escapes : List (Char × Char) := [('"', '"'), ('\\', '\\'), ('n', '\n')]

/-- The characters that a piece stands for; an unknown escape stands for its own spelling. -/
def meaning : StringPiece → List Char
  | .raw c => [c]
  | .escaped c =>
    match escapes.lookup c with
    | some d => [d]
    | none => ['\\', c]

/-- The flaws of the pieces of a string, of whose lexeme `skip` characters precede them. -/
def flaws (skip : Nat) : List StringPiece → List Flaw
  | [] => []
  | .raw _ :: ps => flaws (skip + 1) ps
  | .escaped c :: ps =>
    if (escapes.lookup c).isSome then flaws (skip + 2) ps
    else ⟨.unknownEscape c, skip, 2⟩ :: flaws (skip + 2) ps

/-- The pieces up to the closing quote, and the text from that quote on. Without a closing quote the
pieces reach to the end of the text, or up to a backslash that ends it. -/
def readMany : List Char → List StringPiece × List Char
  | [] => ([], [])
  | c :: rest =>
    if c = '"' then ([], c :: rest)
    else if c = '\\' then
      match rest with
      | [] => ([], [c])
      | d :: rest =>
        let (ps, tail) := readMany rest
        (.escaped d :: ps, tail)
    else
      let (ps, tail) := readMany rest
      (.raw c :: ps, tail)

/-- Reading loses no character. -/
theorem written_readMany (cs : List Char) :
    (readMany cs).1.flatMap written ++ (readMany cs).2 = cs := by
  fun_induction readMany cs <;> simp_all [written]

end StringPiece

namespace Word

/-- The greatest number of digits of an integer literal. -/
def maxDigits : Nat := 4300

/-- A word with a fault that concerns all of it. -/
def invalid (lexeme : List Char) (fault : LexicalFault) : Word :=
  ⟨.invalid, lexeme, .null, [⟨fault, 0, lexeme.length⟩]⟩

/-- The string literal whose opening quote precedes the text. Without a closing quote it reaches to
the end of the text and is invalid. -/
def readString (body : List Char) : Word × List Char :=
  match StringPiece.readMany body with
  | (ps, '"' :: rest) =>
    let value := String.ofList (ps.flatMap StringPiece.meaning)
    (⟨.string, '"' :: ps.flatMap StringPiece.written ++ ['"'], .text value,
      StringPiece.flaws 1 ps⟩, rest)
  | (ps, _) =>
    let whole := invalid ('"' :: body) .unterminatedString
    ({ whole with flaws := StringPiece.flaws 1 ps ++ whole.flaws }, [])

def ofInteger (digits : List Char) : Word :=
  if digits.length ≤ maxDigits then
    ⟨.number, digits, .int (Nat.ofDigitChars 10 digits 0), []⟩
  else invalid digits .numberTooLarge

/-- A number literal that reads as a double, which has to be finite. -/
def ofDouble (lexeme : List Char) : Double → Word
  | .finite negative m => ⟨.number, lexeme, .float (.finite negative m), []⟩
  | _ => invalid lexeme .numberTooLarge

/-- The decimal with the given digits before and behind its point. -/
def decimal (whole fraction : List Char) : Decimal :=
  ⟨Nat.ofDigitChars 10 (whole ++ fraction) 0, -fraction.length⟩

/-- A literal with digits on both sides of the point: the double nearest to it. -/
def ofDecimal (whole fraction : List Char) : Word :=
  ofDouble (whole ++ '.' :: fraction) (.ofDecimal false (decimal whole fraction))

/-- The number literal at the beginning of a text that begins with a digit. -/
def readNumber (text : List Char) : Word × List Char :=
  let whole := text.takeWhile Char.isDigit
  match text.dropWhile Char.isDigit with
  | '.' :: rest =>
    let fraction := rest.takeWhile Char.isDigit
    if fraction.isEmpty then
      let lexeme := whole ++ ['.']
      (invalid lexeme (.malformedNumber (String.ofList lexeme)), rest)
    else (ofDecimal whole fraction, rest.dropWhile Char.isDigit)
  | rest => (ofInteger whole, rest)

def isNameStart (c : Char) : Bool := Text.isLetter c || c = '_'

def isNamePart (c : Char) : Bool := Text.isLetter c || c.isDigit || c = '_'

def ofName (lexeme : List Char) : Word :=
  match Token.Kind.keywords.lookup (String.ofList lexeme) with
  | some kind => ⟨kind, lexeme, .null, []⟩
  | none => ⟨.ident, lexeme, .null, []⟩

/-- The name or reserved word at the beginning of a text that begins with a letter or underscore. -/
def readName (text : List Char) : Word × List Char :=
  (ofName (text.takeWhile isNamePart), text.dropWhile isNamePart)

/-- The operator or punctuation mark at the beginning of a text, of two characters if there is one;
any other character is a word on its own, and invalid. -/
def readMark (c : Char) (rest : List Char) : Word × List Char :=
  match rest.head?.bind fun d => Token.Kind.doubles.lookup (c, d) with
  | some kind => (⟨kind, c :: rest.take 1, .null, []⟩, rest.drop 1)
  | none =>
    match Token.Kind.singles.lookup c with
    | some kind => (⟨kind, [c], .null, []⟩, rest)
    | none => (invalid [c] (.unexpectedCharacter c), rest)

/-- The word at the beginning of a text, and what follows it. -/
def read (c : Char) (rest : List Char) : Word × List Char :=
  if c = '"' then readString rest
  else if c.isDigit then readNumber (c :: rest)
  else if isNameStart c then readName (c :: rest)
  else readMark c rest

@[simp] theorem lexeme_invalid (lexeme : List Char) (fault : LexicalFault) :
    (invalid lexeme fault).lexeme = lexeme := rfl

@[simp] theorem lexeme_ofInteger (digits : List Char) : (ofInteger digits).lexeme = digits := by
  by_cases h : digits.length ≤ maxDigits <;> simp [ofInteger, h]

@[simp] theorem lexeme_ofDouble (lexeme : List Char) (x : Double) :
    (ofDouble lexeme x).lexeme = lexeme := by
  cases x <;> rfl

@[simp] theorem lexeme_ofDecimal (whole fraction : List Char) :
    (ofDecimal whole fraction).lexeme = whole ++ '.' :: fraction :=
  lexeme_ofDouble _ _

@[simp] theorem lexeme_ofName (lexeme : List Char) : (ofName lexeme).lexeme = lexeme := by
  unfold ofName; split <;> rfl

theorem readString_append (body : List Char) :
    (readString body).1.lexeme ++ (readString body).2 = '"' :: body := by
  have h := StringPiece.written_readMany body
  unfold readString
  split
  · rename_i e; rw [e] at h; simpa using h
  · simp

theorem readNumber_append (text : List Char) :
    (readNumber text).1.lexeme ++ (readNumber text).2 = text := by
  have h := List.takeWhile_append_dropWhile (p := Char.isDigit) (l := text)
  unfold readNumber
  split
  · rename_i rest e
    rw [e] at h
    by_cases none : (rest.takeWhile Char.isDigit).isEmpty <;> simpa [none] using h
  · simp

theorem readMark_append (c : Char) (rest : List Char) :
    (readMark c rest).1.lexeme ++ (readMark c rest).2 = c :: rest := by
  unfold readMark
  split
  · cases rest <;> simp
  · split <;> simp

/-- Reading loses no character. -/
theorem read_append (c : Char) (rest : List Char) :
    (read c rest).1.lexeme ++ (read c rest).2 = c :: rest := by
  unfold read
  split
  · rename_i h; subst h; exact readString_append rest
  · split
    · exact readNumber_append _
    · split
      · simp [readName]
      · exact readMark_append c rest

theorem isNamePart_of_isNameStart {c : Char} (h : isNameStart c = true) :
    isNamePart c = true := by
  rcases Bool.or_eq_true_iff.1 h with h | h <;> simp [isNamePart, h]

/-- A word has at least one character. -/
theorem lexeme_read_ne_nil (c : Char) (rest : List Char) : (read c rest).1.lexeme ≠ [] := by
  unfold read
  split
  · unfold readString
    split <;> simp
  · split
    · rename_i h
      unfold readNumber
      split
      · rename_i more _
        by_cases none : (more.takeWhile Char.isDigit).isEmpty <;> simp [none]
      · simp [h]
    · split
      · rename_i h
        simp [readName, isNamePart_of_isNameStart h]
      · unfold readMark
        split
        · simp
        · split <;> simp

end Word

end RuleLang
