import RuleLang.Text.Quoted
import RuleLang.Text.Similarity

/-!
What a user may have meant by a name that does not exist: those known names that are much like it.
Two names are alike if at least three fifths of all their characters are shared.
-/
namespace RuleLang.Command

/-- A known name, the number of characters that it shares with the one that was given, and the
number of characters of both. -/
structure Suggestion where
  name : String
  shared : Nat
  total : Nat
  deriving DecidableEq, Repr

namespace Suggestion

def isEnough (shared total : Nat) : Bool := 3 * total ≤ 5 * (2 * shared)

/-- The suggestion of a known name. Names of very different lengths are not compared, since no more
characters are shared than the shorter one has. -/
def of? (given known : String) : Option Suggestion :=
  let total := known.length + given.length
  if isEnough (min known.length given.length) total then
    let shared := Text.shared known.toList given.toList
    if isEnough shared total then some ⟨known, shared, total⟩ else none
  else none

/-- Whether one suggestion is at least as good as another: by the share of common characters, and of
equally good ones by the greater name. -/
def isAsGood (s t : Suggestion) : Bool :=
  if s.shared * t.total = t.shared * s.total then t.name ≤ s.name
  else t.shared * s.total < s.shared * t.total

def limit : Nat := 3

end Suggestion

/-- The best suggestions for a name, in the order of their names. -/
def suggestions (given : String) (known : List String) : List String :=
  let best := ((known.filterMap (Suggestion.of? given)).mergeSort Suggestion.isAsGood).take
    Suggestion.limit
  (best.map Suggestion.name).mergeSort fun a b => decide (a ≤ b)

def hint : List String → String
  | [] => ""
  | [name] => " Did you mean " ++ Text.quoted name ++ "?"
  | names => " (Did you mean one of: " ++ ", ".intercalate (names.map Text.quoted) ++ "?)"

end RuleLang.Command
