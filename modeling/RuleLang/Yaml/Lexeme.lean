import RuleLang.Yaml.Scalar

/-!
The words and marks of YAML text. The extent of a block follows from the columns of its lines, and
its beginning and end become marks too. That a scalar or a bracket is the beginning of a key shows
only at the colon behind it, on the same line; until then its place is kept as that of a possible
key. Anchors, tags, directives and block scalars are refused.
-/
namespace RuleLang.Yaml

inductive Lexeme where
  | documentStart | documentEnd
  | blockSequenceStart | blockMappingStart | blockEnd
  | flowSequenceStart | flowSequenceEnd | flowMappingStart | flowMappingEnd
  | blockEntry | flowEntry | key | value
  | scalar (text : List Char) (plain : Bool)
  deriving DecidableEq

/-- The place of a lexeme that may turn out to begin a key. -/
structure PossibleKey where
  depth : Nat
  place : Nat
  /-- Whether nothing but a key may stand there. -/
  required : Bool
  index : Nat
  line : Nat
  column : Nat

structure Scan where
  cursor : Cursor
  depth : Nat
  /-- The column of the innermost block, and those of the blocks around it. -/
  indent : Int
  outer : List Int
  keyAllowed : Bool
  keys : List PossibleKey
  lexemes : Array Lexeme

namespace Scan

def ofText (text : List Char) : Scan := ⟨.ofText text, 0, -1, [], true, [], #[]⟩

def column (s : Scan) : Int := s.cursor.column

def push (l : Lexeme) (s : Scan) : Scan := { s with lexemes := s.lexemes.push l }

def skipGapTimes : (count : Nat) → Scan → Scan
  | 0, s => s
  | count + 1, s =>
    let c := s.cursor.passWhile (· = ' ')
    let c := if c.peek = some '#' then c.passWhile (!isBreak ·) else c
    match c.passBreak with
    | ([], _) => { s with cursor := c }
    | (_, c) =>
      skipGapTimes count { s with cursor := c, keyAllowed := s.keyAllowed || s.depth = 0 }

/-- Passes all that separates lexemes; a byte order mark only at the beginning of the text. -/
def skipGap (s : Scan) : Scan :=
  let start :=
    if s.cursor.index = 0 ∧ s.cursor.peek = some '\uFEFF' then s.cursor.next else s.cursor
  skipGapTimes (s.cursor.rest.length + 1) { s with cursor := start }

/-- The greatest distance of a key from its colon. -/
def maxKeyLength : Nat := 1024

/-- Gives up the possible keys that a colon cannot follow any more. -/
def dropStaleKeys (s : Scan) : Except Fault Scan :=
  let stale (k : PossibleKey) : Bool :=
    k.line ≠ s.cursor.line || maxKeyLength < s.cursor.index - k.index
  if s.keys.any fun k => stale k && k.required then .error .malformed
  else .ok { s with keys := s.keys.filter (!stale ·) }

def dropKey (s : Scan) : Except Fault Scan :=
  if s.keys.any fun k => k.depth = s.depth && k.required then .error .malformed
  else .ok { s with keys := s.keys.filter (·.depth ≠ s.depth) }

def saveKey (s : Scan) : Except Fault Scan :=
  if s.keyAllowed then do
    let s ← s.dropKey
    let required := s.depth = 0 && s.indent = s.column
    let k : PossibleKey :=
      ⟨s.depth, s.lexemes.size, required, s.cursor.index, s.cursor.line, s.cursor.column⟩
    return { s with keys := k :: s.keys }
  else .ok s

/-- The columns of the blocks that go on at a column, and the number of those that end. -/
def unwindColumns (column indent : Int) : List Int → Int × List Int × Nat
  | [] => (indent, [], 0)
  | next :: outer =>
    if column < indent then
      let (i, o, n) := unwindColumns column next outer
      (i, o, n + 1)
    else (indent, next :: outer, 0)

def unwind (column : Int) (s : Scan) : Scan :=
  if s.depth ≠ 0 then s
  else
    let (indent, outer, n) := unwindColumns column s.indent s.outer
    { s with
      indent := indent, outer := outer,
      lexemes := s.lexemes ++ (List.replicate n Lexeme.blockEnd).toArray }

/-- Begins a block at a column beyond that of the innermost one, in front of the lexeme at the given
place. -/
def beginBlock (column : Int) (place : Nat) (l : Lexeme) (s : Scan) : Scan :=
  if s.depth = 0 ∧ s.indent < column then
    { s with
      indent := column, outer := s.indent :: s.outer,
      lexemes := s.lexemes.insertIdxIfInBounds place l }
  else s

def mark (l : Lexeme) (width : Nat) (keyAllowed : Bool) (s : Scan) : Scan :=
  { s.push l with cursor := s.cursor.pass width, keyAllowed := keyAllowed }

/-- A mark between documents ends all blocks. -/
def documentMark (l : Lexeme) (s : Scan) : Except Fault Scan := do
  return (← (s.unwind (-1)).dropKey).mark l 3 false

def openBracket (l : Lexeme) (s : Scan) : Except Fault Scan := do
  let s ← s.saveKey
  return { s.mark l 1 true with depth := s.depth + 1 }

def closeBracket (l : Lexeme) (s : Scan) : Except Fault Scan := do
  let s ← s.dropKey
  if s.depth = 0 then throw .malformed
  else return { s.mark l 1 false with depth := s.depth - 1 }

/-- The mark of an item or of a key begins a block where a block may begin. -/
def blockMark (start l : Lexeme) (s : Scan) : Except Fault Scan := do
  if s.depth = 0 && !s.keyAllowed then throw .malformed
  else
    let s ← (s.beginBlock s.column s.lexemes.size start).dropKey
    return s.mark l 1 (l = .blockEntry || s.depth = 0)

/-- The mark in front of a value. What was a possible key is one now, and may begin a block. -/
def valueMark (s : Scan) : Except Fault Scan :=
  match s.keys.find? (·.depth = s.depth) with
  | some k =>
    let s := { s with
      keys := s.keys.filter (·.depth ≠ s.depth),
      lexemes := s.lexemes.insertIdxIfInBounds k.place .key }
    let s := s.beginBlock k.column k.place .blockMappingStart
    .ok (s.mark .value 1 false)
  | none => s.blockMark .blockMappingStart .value

def quoted (quote : Char) (s : Scan) : Except Fault Scan := do
  let s ← s.saveKey
  let (text, c) ← readQuoted quote s.cursor
  return { s.push (.scalar text false) with cursor := c, keyAllowed := false }

def startsPlain (inFlow : Bool) (c : Char) (second : Option Char) : Bool :=
  let marks := ['-', '?', ':', ',', '[', ']', '{', '}', '#', '&', '*', '!', '|', '>', '\'', '"',
    '%', '@', '\x60']
  !(endsWord (some c) || c ∈ marks) ||
    (!endsWord second && (c = '-' || (!inFlow && (c = '?' || c = ':'))))

def plain (s : Scan) : Except Fault Scan := do
  let s ← s.saveKey
  let p := readPlain (s.depth ≠ 0) (s.indent + 1) s.cursor
  return { s.push (.scalar p.text true) with cursor := p.cursor, keyAllowed := p.newLine }

def readLexeme (c : Char) (s : Scan) : Except Fault Scan :=
  let inFlow := s.depth ≠ 0
  let second := s.cursor.peekSecond
  if s.cursor.column = 0 ∧ s.cursor.atMark '-' then s.documentMark .documentStart
  else if s.cursor.column = 0 ∧ s.cursor.atMark '.' then s.documentMark .documentEnd
  else if c = '[' then s.openBracket .flowSequenceStart
  else if c = '{' then s.openBracket .flowMappingStart
  else if c = ']' then s.closeBracket .flowSequenceEnd
  else if c = '}' then s.closeBracket .flowMappingEnd
  else if c = ',' then do return (← s.dropKey).mark .flowEntry 1 true
  else if c = '-' ∧ endsWord second then s.blockMark .blockSequenceStart .blockEntry
  else if c = '?' ∧ (inFlow ∨ endsWord second) then s.blockMark .blockMappingStart .key
  else if c = ':' ∧ (inFlow ∨ endsWord second) then s.valueMark
  else if c = '\'' ∨ c = '"' then s.quoted c
  else if startsPlain inFlow c second then s.plain
  else .error .malformed

/-- Reads the lexemes up to the end of the text, of which there are at most `count`. -/
def readAll : (count : Nat) → Scan → Except Fault Scan
  | 0, _ => .error .malformed
  | count + 1, s => do
    let s ← s.skipGap.dropStaleKeys
    let s := s.unwind s.column
    match s.cursor.peek with
    | none => (s.unwind (-1)).dropKey
    | some c => readAll count (← s.readLexeme c)

end Scan

def lexemes (text : List Char) : Except Fault (List Lexeme) := do
  if text.all isAllowed then
    return (← (Scan.ofText text).readAll (text.length + 1)).lexemes.toList
  else throw .malformed

end RuleLang.Yaml
