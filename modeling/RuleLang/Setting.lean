import RuleLang.Moment
import RuleLang.Number
import RuleLang.Text.Quoted

/-!
Settings as they are given by a user: nested lists and mappings of scalars. The keys of a mapping
keep their order; two keys that are equal are one, and numbers are equal by value, with the truth
values as 0 and 1.
-/
namespace RuleLang

inductive Setting where
  | null
  | bool (value : Bool)
  | number (value : Number)
  | text (value : String)
  | moment (value : Moment)
  | list (items : List Setting)
  | mapping (entries : List (Setting × Setting))

namespace Setting

abbrev int (n : Int) : Setting := .number (.int n)

abbrev float (x : Double) : Setting := .number (.float x)

def display : Setting → String
  | .null => "None"
  | .bool true => "True"
  | .bool false => "False"
  | .number n => n.write .compact
  | .text s => Text.quoted s
  | .moment m => m.display
  | .list items => "[" ++ ", ".intercalate (displayItems items) ++ "]"
  | .mapping entries => "\x7b" ++ ", ".intercalate (displayEntries entries) ++ "\x7d"
where
  displayItems : List Setting → List String
    | [] => []
    | x :: xs => display x :: displayItems xs
  displayEntries : List (Setting × Setting) → List String
    | [] => []
    | (key, value) :: entries => (display key ++ ": " ++ display value) :: displayEntries entries

/-- The text by which a key is put in order: a text stands for itself. -/
def plain : Setting → String
  | .text s => s
  | .moment m => m.plain
  | s => s.display

def wholeNumber? : Setting → Option WholeNumber
  | .number n => WholeNumber.ofNumber? n
  | _ => none

def text? : Setting → Option String
  | .text s => some s
  | _ => none

/-- The number that a truth value or a number counts as. -/
def asNumber? : Setting → Option Number
  | .bool b => some (.int (if b then 1 else 0))
  | .number n => some n
  | _ => none

end Setting

/-- Whether two numbers are equal by value; a NaN is equal to nothing. -/
def Number.sameValue : Number → Number → Bool
  | .int n, .int m => n = m
  | .int n, .float x => x.toInt? = some n
  | .float x, .int n => x.toInt? = some n
  | .float .nan, .float _ => false
  | .float x, .float y => x = y || (x.toInt? = some 0 && y.toInt? = some 0)

/-- Whether a number is less than an integer; a NaN is not. -/
def Number.isBelow (bound : Int) : Number → Bool
  | .int n => n < bound
  | .float .nan => false
  | .float (.infinite negative) => negative
  | .float (.finite negative m) =>
    (if negative then -(m.numerator : Int) else m.numerator) < bound * m.denominator

def Number.isAbove (bound : Int) : Number → Bool
  | .int n => bound < n
  | .float .nan => false
  | .float (.infinite negative) => !negative
  | .float (.finite negative m) =>
    bound * m.denominator < (if negative then -(m.numerator : Int) else m.numerator)

namespace Setting

def isWritable : Setting → Bool
  | .null | .bool _ | .text _ | .moment _ => true
  | .number n => n.isWritable
  | .list items => areWritable items
  | .mapping entries => entriesAreWritable entries
where
  areWritable : List Setting → Bool
    | [] => true
    | x :: xs => isWritable x && areWritable xs
  entriesAreWritable : List (Setting × Setting) → Bool
    | [] => true
    | (key, value) :: entries =>
      isWritable key && isWritable value && entriesAreWritable entries

def sameKey (a b : Setting) : Bool :=
  match a.asNumber?, b.asNumber? with
  | some n, some m => n.sameValue m
  | _, _ =>
    match a, b with
    | .null, .null => true
    | .text s, .text t => s = t
    | .moment m, .moment n => m = n
    | _, _ => false

/-- Gives a key a value: a key that is there keeps its place. -/
def insert (key value : Setting) : List (Setting × Setting) → List (Setting × Setting)
  | [] => [(key, value)]
  | (k, v) :: entries =>
    if sameKey k key then (k, value) :: entries else (k, v) :: insert key value entries

/-- The mapping of a list of entries, of which later ones win. -/
def ofEntries (entries : List (Setting × Setting)) : Setting :=
  .mapping (entries.foldl (fun m (key, value) => insert key value m) [])

def find? (key : String) (entries : List (Setting × Setting)) : Option Setting :=
  (entries.find? fun e => sameKey e.1 (.text key)).map Prod.snd

end Setting

end RuleLang
