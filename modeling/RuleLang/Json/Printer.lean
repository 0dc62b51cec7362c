import RuleLang.Json
import RuleLang.Text.Quoted

/-!
JSON text in printable ASCII characters. Without an indentation all stands on one line; with one,
each item stands on a line of its own, indented by its level.
-/
namespace RuleLang.Json

/-- The number with four hexadecimal digits, as strings write a unit of UTF-16. -/
def unitEscape (n : Nat) : List Char := '\\' :: 'u' :: Text.hexadecimal 4 n

/-- A character between the quotes of a string. Beyond `U+FFFF` it is written as two units. -/
def escapeChar (c : Char) : List Char :=
  if c = '"' ∨ c = '\\' then ['\\', c]
  else if c = '\n' then ['\\', 'n']
  else if c = '\r' then ['\\', 'r']
  else if c = '\t' then ['\\', 't']
  else if c = '\x0c' then ['\\', 'f']
  else if c = '\x08' then ['\\', 'b']
  else if 32 ≤ c.toNat ∧ c.toNat < 127 then [c]
  else if c.toNat < 0x10000 then unitEscape c.toNat
  else
    let n := c.toNat - 0x10000
    unitEscape (0xD800 + n / 0x400) ++ unitEscape (0xDC00 + n % 0x400)

def writeString (s : String) : List Char := '"' :: s.toList.flatMap escapeChar ++ ['"']

/-- A new line at a level of an indented text; nothing where all stands on one line. -/
def lineBreak (indent : Option Nat) (level : Nat) : List Char :=
  match indent with
  | none => []
  | some width => '\n' :: List.replicate (width * level) ' '

def separator (indent : Option Nat) (level : Nat) : List Char :=
  match indent with
  | none => [',', ' ']
  | some _ => ',' :: lineBreak indent level

/-- The items one level down between their brackets; brackets without items stand together. -/
def enclose (indent : Option Nat) (level : Nat) (left right : Char) (items : List (List Char)) :
    List Char :=
  if items.isEmpty then [left, right]
  else
    left :: lineBreak indent (level + 1) ++ (separator indent (level + 1)).intercalate items ++
      lineBreak indent level ++ [right]

def write (indent : Option Nat) (level : Nat) : Json → List Char
  | .null => "null".toList
  | .bool true => "true".toList
  | .bool false => "false".toList
  | .number n => (n.write .json).toList
  | .string s => writeString s
  | .array items => enclose indent level '[' ']' (writeItems items)
  | .object fields => enclose indent level '{' '}' (writeFields fields)
where
  writeItems : List Json → List (List Char)
    | [] => []
    | item :: items => write indent (level + 1) item :: writeItems items
  writeFields : List (String × Json) → List (List Char)
    | [] => []
    | (name, value) :: fields =>
      (writeString name ++ ':' :: ' ' :: write indent (level + 1) value) :: writeFields fields

def isWritable : Json → Bool
  | .null | .bool _ | .string _ => true
  | .number n => n.isWritable
  | .array items => areWritable items
  | .object fields => fieldsAreWritable fields
where
  areWritable : List Json → Bool
    | [] => true
    | item :: items => isWritable item && areWritable items
  fieldsAreWritable : List (String × Json) → Bool
    | [] => true
    | (_, value) :: fields => isWritable value && fieldsAreWritable fields

/-- The JSON text of a value, with all its numbers written out; an indentation that is not positive
breaks lines only. -/
def text (indent : Option Int) (v : Json) : String :=
  String.ofList (v.write (indent.map Int.toNat) 0)

end RuleLang.Json
