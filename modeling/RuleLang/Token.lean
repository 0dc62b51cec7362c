import RuleLang.Number
import RuleLang.Span

/-!
Tokens: the kinds of words that rule source is made of, and the words themselves.
-/
namespace RuleLang

inductive Token.Kind where
  | number | string | ident
  | var | and | or | true | false
  | equal | equalEqual | bangEqual | less | lessEqual | greater | greaterEqual
  | plus | minus | star | slash | bang
  | semicolon | comma | lparen | rparen
  | eof | invalid
  deriving DecidableEq, Repr

/-- A word of the source. Only numbers and strings have a value. -/
structure Token where
  kind : Token.Kind
  lexeme : String
  span : Span
  value : Scalar
  deriving DecidableEq

namespace Token.Kind

/-- The name that messages give to a kind. -/
def label : Kind → String
  | .number => "NUMBER" | .string => "STRING" | .ident => "IDENT"
  | .var => "VAR" | .and => "AND" | .or => "OR" | .true => "TRUE" | .false => "FALSE"
  | .equal => "EQUAL" | .equalEqual => "EQUAL_EQUAL" | .bangEqual => "BANG_EQUAL"
  | .less => "LESS" | .lessEqual => "LESS_EQUAL"
  | .greater => "GREATER" | .greaterEqual => "GREATER_EQUAL"
  | .plus => "PLUS" | .minus => "MINUS" | .star => "STAR" | .slash => "SLASH" | .bang => "BANG"
  | .semicolon => "SEMICOLON" | .comma => "COMMA" | .lparen => "LPAREN" | .rparen => "RPAREN"
  | .eof => "EOF" | .invalid => "INVALID"

def keywords : List (String × Kind) :=
  [("var", .var), ("and", .and), ("or", .or), ("true", .true), ("false", .false)]

/-- The kinds written with two characters. -/
def doubles : List ((Char × Char) × Kind) :=
  [(('=', '='), .equalEqual), (('!', '='), .bangEqual),
   (('<', '='), .lessEqual), (('>', '='), .greaterEqual)]

/-- The kinds written with one character. -/
def singles : List (Char × Kind) :=
  [('=', .equal), ('<', .less), ('>', .greater), ('!', .bang), ('+', .plus), ('-', .minus),
   ('*', .star), ('/', .slash), (';', .semicolon), (',', .comma), ('(', .lparen), (')', .rparen)]

inductive Role where
  | literal | keyword | operator | punctuation | special
  deriving DecidableEq, Repr

def role : Kind → Role
  | .number | .string | .ident => .literal
  | .var | .and | .or | .true | .false => .keyword
  | .equal | .equalEqual | .bangEqual | .less | .lessEqual | .greater | .greaterEqual => .operator
  | .plus | .minus | .star | .slash | .bang => .operator
  | .semicolon | .comma | .lparen | .rparen => .punctuation
  | .eof | .invalid => .special

/-- All kinds, in the order in which they are listed. -/
def all : List Kind :=
  [.number, .string, .ident, .var, .and, .or, .true, .false, .equal, .equalEqual, .bangEqual,
   .less, .lessEqual, .greater, .greaterEqual, .plus, .minus, .star, .slash, .bang, .semicolon,
   .comma, .lparen, .rparen, .eof, .invalid]

theorem mem_all (k : Kind) : k ∈ all := by
  cases k <;> decide

def comparisons : List Kind :=
  [.less, .lessEqual, .greater, .greaterEqual, .equalEqual, .bangEqual]

end Token.Kind

end RuleLang
