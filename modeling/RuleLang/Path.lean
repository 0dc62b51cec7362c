import RuleLang.Text.Separated

/-!
Paths of files. A path is a root and the names on the way from it. Empty names and names that stand
for the directory they are in are left out; names that lead back are kept. Of slashes at the
beginning exactly two are a root of their own, any other number is one.
-/
namespace RuleLang

structure Path where
  /-- Nothing, one slash or two. -/
  root : String
  names : List String
  deriving DecidableEq, Repr

namespace Path

def rootOf (text : List Char) : String :=
  match (text.takeWhile (· = '/')).length with
  | 0 => ""
  | 2 => "//"
  | _ => "/"

def ofString (text : String) : Path :=
  let parts := (Text.separated '/' text.toList).filter fun part => !part.isEmpty && part ≠ ['.']
  ⟨rootOf text.toList, parts.map String.ofList⟩

/-- The text of a path; the directory at hand is a dot. -/
def toString (p : Path) : String :=
  if p.root = "" ∧ p.names = [] then "." else p.root ++ "/".intercalate p.names

end Path

end RuleLang
