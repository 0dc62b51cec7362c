import RuleLang.Setting
import RuleLang.Yaml.Moment
import RuleLang.Yaml.Number
import RuleLang.Yaml.Tree

/-!
What YAML text stands for. Truth values, numbers, moments and nothing have forms of their own among
plain scalars, and a plain scalar of any other form is a text. A mapping may merge others, whose
entries stand before its own.
-/
namespace RuleLang.Yaml

def trueWords : List String := ["yes", "Yes", "YES", "true", "True", "TRUE", "on", "On", "ON"]

def falseWords : List String := ["no", "No", "NO", "false", "False", "FALSE", "off", "Off", "OFF"]

def nullWords : List String := ["", "~", "null", "Null", "NULL"]

/-- The key whose value is merged into the mapping it stands in. -/
def mergeWord : List Char := ['<', '<']

/-- The word that is a text only as a key. -/
def valueWord : List Char := ['=']

def ofPlain (cs : List Char) : Except Fault Setting :=
  let s := String.ofList cs
  let (negative, digits) := splitSign cs
  let signed := digits.length < cs.length
  if s ∈ trueWords then .ok (.bool true)
  else if s ∈ falseWords then .ok (.bool false)
  else if s ∈ nullWords then .ok .null
  else if isDouble signed digits then .ok (.float (readDouble negative digits))
  else if isInteger digits then
    match readInteger digits with
    | .ok n => .ok (.int (if negative then -(n : Int) else n))
    | .error e => .error (.value e)
  else
    match readMoment? cs with
    | some m =>
      match m.fault? with
      | some e => .error (.value (.moment e))
      | none => .ok (.moment m)
    | none => if cs = mergeWord ∨ cs = valueWord then .error .malformed else .ok (.text s)

namespace Tree

def isMerge : Tree → Bool
  | .scalar text plain => plain && text = mergeWord
  | _ => false

/-- The entries to merge, and the others. A merge takes a mapping or a sequence of mappings, of
which the last one comes first. -/
def splitMerges : List (Tree × Tree) → Except Fault (List (Tree × Tree) × List (Tree × Tree))
  | [] => .ok ([], [])
  | (key, value) :: rest => do
    let (merged, own) ← splitMerges rest
    if key.isMerge then
      let entries ←
        match value with
        | .mapping entries => pure entries
        | .sequence items =>
          let parts ← items.mapM fun item =>
            match item with
            | .mapping entries => .ok entries
            | _ => .error .malformed
          pure parts.reverse.flatten
        | _ => throw .malformed
      return (entries ++ merged, own)
    else return (merged, (key, value) :: own)

def merged : Tree → Except Fault Tree
  | .scalar text plain => .ok (.scalar text plain)
  | .sequence items => do return .sequence (← mergedItems items)
  | .mapping entries => do
    let (merged, own) ← splitMerges (← mergedEntries entries)
    return .mapping (merged ++ own)
where
  mergedItems : List Tree → Except Fault (List Tree)
    | [] => .ok []
    | t :: ts => do
      let t ← merged t
      return t :: (← mergedItems ts)
  mergedEntries : List (Tree × Tree) → Except Fault (List (Tree × Tree))
    | [] => .ok []
    | (key, value) :: ts => do
      let key ← merged key
      let value ← merged value
      return (key, value) :: (← mergedEntries ts)

/-- The setting of a tree without merges. Only scalars may be keys. -/
def setting : Tree → Except Fault Setting
  | .scalar text true => ofPlain text
  | .scalar text false => .ok (.text (String.ofList text))
  | .sequence items => do return .list (← settingItems items)
  | .mapping entries => do return Setting.ofEntries (← settingEntries entries)
where
  settingItems : List Tree → Except Fault (List Setting)
    | [] => .ok []
    | t :: ts => do
      let s ← setting t
      return s :: (← settingItems ts)
  settingEntries : List (Tree × Tree) → Except Fault (List (Setting × Setting))
    | [] => .ok []
    | (key, value) :: ts => do
      let key ←
        match key with
        | .scalar text plain =>
          if plain && text = valueWord then pure (.text (String.ofList text))
          else if plain then ofPlain text
          else pure (.text (String.ofList text))
        | _ => throw .malformed
      let value ← setting value
      return (key, value) :: (← settingEntries ts)

end Tree

/-- The setting of a text; a text without a document is nothing. -/
def read (text : List Char) : Except Fault Setting := do
  match ← Tree.ofLexemes (← lexemes text) with
  | none => return .null
  | some tree => (← tree.merged).setting

end RuleLang.Yaml
