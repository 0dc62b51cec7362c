import RuleLang.Yaml.Fault

/-!
Reading YAML text: the characters ahead and their place. The end of the text separates words like a
blank does.
-/
namespace RuleLang.Yaml

def isBreak (c : Char) : Bool :=
  c = '\n' || c = '\r' || c = '\x85' || c = '\u2028' || c = '\u2029'

/-- Whether a word ends in front of a character, or of the end of the text. -/
def endsWord : Option Char → Bool
  | none => true
  | some c => c = ' ' || c = '\t' || isBreak c

def isAllowed (c : Char) : Bool :=
  let n := c.toNat
  n = 0x09 || n = 0x0A || n = 0x0D || (0x20 ≤ n && n ≤ 0x7E) || n = 0x85 ||
    (0xA0 ≤ n && n ≤ 0xD7FF) || (0xE000 ≤ n && n ≤ 0xFFFD) || 0x10000 ≤ n

/-- The characters ahead, and the number of those passed, of the lines passed, and of the characters
passed on the line at hand. -/
structure Cursor where
  rest : List Char
  index : Nat
  line : Nat
  column : Nat

namespace Cursor

def ofText (text : List Char) : Cursor := ⟨text, 0, 0, 0⟩

def peek (c : Cursor) : Option Char := c.rest.head?

def peekSecond (c : Cursor) : Option Char := c.rest[1]?

/-- Passes a character. A byte order mark has no width. -/
def next (c : Cursor) : Cursor :=
  match c.rest with
  | [] => c
  | ch :: rest =>
    if isBreak ch && !(ch = '\r' && rest.head? = some '\n') then ⟨rest, c.index + 1, c.line + 1, 0⟩
    else ⟨rest, c.index + 1, c.line, if ch = '\uFEFF' then c.column else c.column + 1⟩

def pass (c : Cursor) : Nat → Cursor
  | 0 => c
  | n + 1 => (c.next).pass n

def passWhile (p : Char → Bool) (c : Cursor) : Cursor := c.pass (c.rest.takeWhile p).length

/-- Passes a line break, if there is one, and gives it in its plain form. -/
def passBreak (c : Cursor) : List Char × Cursor :=
  match c.rest with
  | '\r' :: '\n' :: _ => (['\n'], c.pass 2)
  | ch :: _ =>
    if ch = '\u2028' || ch = '\u2029' then ([ch], c.next)
    else if isBreak ch then (['\n'], c.next)
    else ([], c)
  | [] => ([], c)

/-- Whether the given mark of three characters stands here as a word. -/
def atMark (c : Cursor) (mark : Char) : Bool :=
  c.rest.take 3 = [mark, mark, mark] && endsWord c.rest[3]?

def atDocumentMark (c : Cursor) : Bool := c.atMark '-' || c.atMark '.'

end Cursor

end RuleLang.Yaml
