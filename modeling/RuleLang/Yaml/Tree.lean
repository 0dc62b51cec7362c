import RuleLang.Yaml.Lexeme

/-!
YAML documents as trees of collections and scalars, from the lexemes of a text. A value that is left
out is an empty plain scalar. A text holds at most one document.
-/
namespace RuleLang.Yaml

inductive Tree where
  | scalar (text : List Char) (plain : Bool)
  | sequence (items : List Tree)
  | mapping (entries : List (Tree × Tree))

namespace Tree

def empty : Tree := .scalar [] true

/-- Readers take lexemes from a list and give a tree or a part of one. -/
abbrev Reader := StateT (List Lexeme) (Except Fault)

def comes (kinds : List Lexeme) : Reader Bool := fun ls => .ok (ls.head?.any (· ∈ kinds), ls)

def accept (l : Lexeme) : Reader Bool := fun ls =>
  match ls with
  | [] => .ok (false, [])
  | l' :: rest => .ok (if l' = l then (true, rest) else (false, ls))

def refuse {α : Type} : Reader α := fun _ => .error .malformed

def flowSeparator (first : Bool) : Reader Unit := do
  if first then return ()
  else if ← accept .flowEntry then return ()
  else refuse

/-- The lexemes before which a value in a block may be left out. -/
def blockEnds : List Lexeme := [.key, .value, .blockEnd]

mutual

/-- Reads a node. A block may begin there or not; so may a sequence that is not indented. -/
def readNode (inBlock unindented : Bool) : (count : Nat) → Reader Tree
  | 0 => refuse
  | count + 1 => do
    match ← get with
    | .scalar text plain :: rest =>
      set rest
      return .scalar text plain
    | .flowSequenceStart :: rest =>
      set rest
      return .sequence (← readFlowItems true count)
    | .flowMappingStart :: rest =>
      set rest
      return .mapping (← readFlowEntries true count)
    | .blockSequenceStart :: rest =>
      if inBlock then
        set rest
        return .sequence (← readItems true count)
      else refuse
    | .blockMappingStart :: rest =>
      if inBlock then
        set rest
        return .mapping (← readEntries count)
      else refuse
    | .blockEntry :: _ =>
      if unindented then return .sequence (← readItems false count) else refuse
    | _ => refuse

def readOptional (inBlock unindented : Bool) (ends : List Lexeme) : (count : Nat) → Reader Tree
  | 0 => refuse
  | count + 1 => do
    if ← comes ends then return empty else readNode inBlock unindented count

/-- Reads the items of a sequence. An indented one has a mark at its end. -/
def readItems (indented : Bool) : (count : Nat) → Reader (List Tree)
  | 0 => refuse
  | count + 1 => do
    if ← accept .blockEntry then
      let ends := if indented then [.blockEntry, .blockEnd] else .blockEntry :: blockEnds
      let item ← readOptional true false ends count
      return item :: (← readItems indented count)
    else if !indented then return []
    else if ← accept .blockEnd then return []
    else refuse

def readEntries : (count : Nat) → Reader (List (Tree × Tree))
  | 0 => refuse
  | count + 1 => do
    if ← accept .key then
      let key ← readOptional true true blockEnds count
      let value ←
        if ← accept .value then readOptional true true blockEnds count else pure empty
      return (key, value) :: (← readEntries count)
    else if ← accept .blockEnd then return []
    else refuse

/-- Reads an entry behind the mark of its key, in brackets that end with the given lexeme. -/
def readFlowEntry (close : Lexeme) : (count : Nat) → Reader (Tree × Tree)
  | 0 => refuse
  | count + 1 => do
    let key ← readOptional false false [.value, .flowEntry, close] count
    let value ←
      if ← accept .value then readOptional false false [.flowEntry, close] count else pure empty
    return (key, value)

/-- Reads the items of a sequence in brackets; an item may be a mapping with a single entry. -/
def readFlowItems (first : Bool) : (count : Nat) → Reader (List Tree)
  | 0 => refuse
  | count + 1 => do
    if ← accept .flowSequenceEnd then return []
    else
      flowSeparator first
      if ← accept .flowSequenceEnd then return []
      else
        let item ←
          if ← accept .key then do
            let entry ← readFlowEntry .flowSequenceEnd count
            pure (.mapping [entry])
          else readNode false false count
        return item :: (← readFlowItems false count)

/-- Reads the entries of a mapping in braces; an entry may be a key alone. -/
def readFlowEntries (first : Bool) : (count : Nat) → Reader (List (Tree × Tree))
  | 0 => refuse
  | count + 1 => do
    if ← accept .flowMappingEnd then return []
    else
      flowSeparator first
      if ← accept .flowMappingEnd then return []
      else
        let entry ←
          if ← accept .key then readFlowEntry .flowMappingEnd count
          else do
            let key ← readNode false false count
            pure (key, empty)
        return entry :: (← readFlowEntries false count)

end

/-- How many readers may be nested in each other: to each lexeme belong at most three of them. -/
def readersFor (ls : List Lexeme) : Nat := 3 * ls.length + 3

/-- Reads the one document of a text, if there is one. Only marks of its end may follow it. -/
def ofLexemes (ls : List Lexeme) : Except Fault (Option Tree) :=
  if ls.isEmpty then .ok none
  else do
    let read : Reader Tree := do
      if ← accept .documentStart then
        if (← get).isEmpty || (← comes [.documentStart, .documentEnd]) then return empty
      readNode true false (readersFor ls)
    let (tree, rest) ← read ls
    if rest.all (· = .documentEnd) then return some tree else throw .malformed

end Tree

end RuleLang.Yaml
