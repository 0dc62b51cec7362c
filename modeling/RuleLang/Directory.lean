import RuleLang.Text.Separated

/-!
The files below a working directory. A path is followed name by name; only its last name may be that
of a file. Nothing is known of what lies outside, but that the directories on the way there exist.
-/
namespace RuleLang

inductive Entry where
  | file (content : List UInt8)
  | directory
  deriving DecidableEq

inductive FileError where
  | missing
  | isDirectory
  | notDirectory
  | nameTooLong
  /-- The path has a null character, which no name has. -/
  | nullCharacter
  deriving DecidableEq, Repr

def FileError.message : FileError → String
  | .missing => "No such file or directory"
  | .isDirectory => "Is a directory"
  | .notDirectory => "Not a directory"
  | .nameTooLong => "File name too long"
  | .nullCharacter => "embedded null byte"

abbrev FileReader := String → Except FileError (List UInt8)

/-- Entries by the names on the way to them. Directories above an entry need not be listed. -/
structure Directory where
  entries : List (List String × Entry)

namespace Directory

def find? (d : Directory) (names : List String) : Option Entry :=
  match d.entries.lookup names with
  | some e => some e
  | none => if d.entries.any fun (way, _) => names.isPrefixOf way then some .directory else none

/-- A place that a path may lead to: a way from the working directory, or a directory outside. -/
inductive Place where
  | inside (names : List String)
  | outside
  deriving DecidableEq, Repr

def entry? (d : Directory) : Place → Option Entry
  | .inside [] => some .directory
  | .inside names => d.find? names
  | .outside => some .directory

/-- The greatest number of bytes of a name. -/
def maxNameSize : Nat := 255

/-- The number of bytes from which on a path is too long. -/
def pathSizeLimit : Nat := 4096

def enter (d : Directory) (place : Place) (name : String) : Except FileError Place :=
  if name = "" ∨ name = "." then .ok place
  else if name = ".." then
    match place with
    | .inside [] | .outside => .ok .outside
    | .inside names => .ok (.inside names.dropLast)
  else if maxNameSize < name.utf8ByteSize then .error .nameTooLong
  else
    match place with
    | .outside => .error .missing
    | .inside names =>
      if (d.find? (names ++ [name])).isSome then .ok (.inside (names ++ [name]))
      else .error .missing

/-- Follows names; all but the last one have to lead to directories. -/
def follow (d : Directory) (place : Place) : List String → Except FileError Place
  | [] => .ok place
  | name :: names =>
    match d.entry? place with
    | some .directory =>
      match d.enter place name with
      | .ok next => d.follow next names
      | .error e => .error e
    | some (.file _) => .error .notDirectory
    | none => .error .missing

def resolve (d : Directory) (path : String) : Except FileError Entry :=
  if '\x00' ∈ path.toList then .error .nullCharacter
  else if path = "" then .error .missing
  else if pathSizeLimit ≤ path.utf8ByteSize then .error .nameTooLong
  else
    let start := if path.toList.head? = some '/' then .outside else .inside []
    match d.follow start ((Text.separated '/' path.toList).map String.ofList) with
    | .error e => .error e
    | .ok place =>
      match d.entry? place with
      | some e => .ok e
      | none => .error .missing

def read (d : Directory) : FileReader := fun path =>
  match d.resolve path with
  | .ok (.file content) => .ok content
  | .ok .directory => .error .isDirectory
  | .error e => .error e

end Directory

end RuleLang
