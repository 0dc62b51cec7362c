import RuleLang.Command.Suggestion

/-!
Arguments of commands. An option begins with a dash; it has a long name, and may have a letter. The
letters of several options may follow one dash. A value is the next argument, or it is attached: to
a letter as it is, to a long name behind an equals sign. Behind two dashes alone nothing is an
option.
-/
namespace RuleLang.Command

structure OptionSpec where
  letter : Option Char
  /-- The long name with its dashes. -/
  name : String
  takesValue : Bool
  deriving DecidableEq

structure Given where
  name : String
  value : Option String
  deriving DecidableEq

inductive OptionFault where
  /-- There is no option of this name, but there are others much like it. -/
  | unknown (name : String) (similar : List String)
  | valueMissing (name : String)
  | valueGiven (name : String)
  deriving DecidableEq

def OptionFault.message : OptionFault → String
  | .unknown name similar => "No such option " ++ Text.quoted name ++ "." ++ hint similar
  | .valueMissing name => "Option " ++ Text.quoted name ++ " requires an argument."
  | .valueGiven name => "Option " ++ Text.quoted name ++ " does not take a value."

structure Arguments where
  options : List Given
  others : List String

namespace Arguments

/-- The options of the letters behind a dash, and whether the next argument is a value of theirs. -/
def readLetters (specs : List OptionSpec) (next : Option String) :
    List Char → Except OptionFault (List Given × Bool)
  | [] => .ok ([], false)
  | c :: more =>
    let written := String.ofList ['-', c]
    match specs.find? (·.letter = some c) with
    | none => .error (.unknown written [])
    | some spec =>
      if spec.takesValue then
        if more.isEmpty then
          match next with
          | some value => .ok ([⟨spec.name, some value⟩], true)
          | none => .error (.valueMissing written)
        else .ok ([⟨spec.name, some (String.ofList more)⟩], false)
      else
        match readLetters specs next more with
        | .ok (given, used) => .ok (⟨spec.name, none⟩ :: given, used)
        | .error e => .error e

/-- The options of an argument that begins with a dash, and whether the next argument is a value of
theirs. -/
def readOption (specs : List OptionSpec) (next : Option String) (argument : List Char) :
    Except OptionFault (List Given × Bool) :=
  let name := String.ofList (argument.takeWhile (· ≠ '='))
  let attached :=
    match argument.dropWhile (· ≠ '=') with
    | [] => none
    | _ :: value => some (String.ofList value)
  match specs.find? (·.name = name) with
  | some spec =>
    if spec.takesValue then
      match attached, next with
      | some value, _ => .ok ([⟨name, some value⟩], false)
      | none, some value => .ok ([⟨name, some value⟩], true)
      | none, none => .error (.valueMissing name)
    else if attached.isSome then .error (.valueGiven name)
    else .ok ([⟨name, none⟩], false)
  | none =>
    if argument.take 2 = ['-', '-'] then
      .error (.unknown name (suggestions name (specs.map (·.name))))
    else readLetters specs next (argument.drop 1)

def isOption (argument : List Char) : Bool := argument.head? = some '-' && 1 < argument.length

/-- Sorts arguments. Options may stand behind other arguments only if these are `mixed`. -/
def read (specs : List OptionSpec) (mixed : Bool) : List String → Except OptionFault Arguments
  | [] => .ok ⟨[], []⟩
  | argument :: rest =>
    if argument = "--" then .ok ⟨[], rest⟩
    else if isOption argument.toList then
      match readOption specs rest.head? argument.toList with
      | .error e => .error e
      | .ok (given, false) =>
        (read specs mixed rest).map fun a => { a with options := given ++ a.options }
      | .ok (given, true) =>
        match rest with
        | [] => .ok ⟨given, []⟩
        | _ :: rest =>
          (read specs mixed rest).map fun a => { a with options := given ++ a.options }
    else if mixed then
      (read specs mixed rest).map fun a => { a with others := argument :: a.others }
    else .ok ⟨[], argument :: rest⟩

def has (a : Arguments) (name : String) : Bool := a.options.any (·.name = name)

/-- The value of an option; the last one wins. -/
def value? (a : Arguments) (name : String) : Option String :=
  (a.options.reverse.find? (·.name = name)).bind Given.value

def first? (a : Arguments) (names : List String) : Option String :=
  (a.options.find? (·.name ∈ names)).map Given.name

end Arguments

end RuleLang.Command
