import RuleLang.Moment

/-!
The form of moments among plain scalars: a date alone, or a date and a time of day, which may have a
fraction of a second and a zone.
-/
namespace RuleLang.Yaml

/-- The number of a text of at least `least` and at most `most` digits at the beginning, and what
follows it. -/
def takeNumber? (least most : Nat) (cs : List Char) : Option (Nat × List Char) :=
  let ds := (cs.take most).takeWhile Char.isDigit
  if ds.length < least then none else some (Nat.ofDigitChars 10 ds 0, cs.drop ds.length)

def takeChar? (p : Char → Bool) : List Char → Option (List Char)
  | c :: cs => if p c then some cs else none
  | [] => none

/-- A zone behind a time of day: nothing, universal time, or hours and minutes with their sign. -/
def readZone? (cs : List Char) : Option (Option Int) :=
  match cs.dropWhile (fun c => c = ' ' || c = '\t') with
  | [] => if cs.isEmpty then some none else none
  | ['Z'] => some (some 0)
  | sign :: cs => do
    if sign ≠ '+' ∧ sign ≠ '-' then none
    else
      let (hours, cs) ← takeNumber? 1 2 cs
      let minutes ←
        match cs with
        | [] => some 0
        | ':' :: cs => do
          let (minutes, cs) ← takeNumber? 2 2 cs
          if cs.isEmpty then some minutes else none
        | _ => none
      let seconds : Int := hours * 3600 + minutes * 60
      return some (if sign = '-' then -seconds else seconds)

def microseconds (ds : List Char) : Nat :=
  let ds := ds.take 6
  Nat.ofDigitChars 10 (ds ++ List.replicate (6 - ds.length) '0') 0

def readTime? (cs : List Char) : Option TimeOfDay := do
  let cs ←
    match cs with
    | c :: rest =>
      if c = 'T' || c = 't' then some rest
      else if c = ' ' || c = '\t' then some (rest.dropWhile fun c => c = ' ' || c = '\t')
      else none
    | [] => none
  let (hour, cs) ← takeNumber? 1 2 cs
  let (minute, cs) ← takeNumber? 2 2 (← takeChar? (· = ':') cs)
  let (second, cs) ← takeNumber? 2 2 (← takeChar? (· = ':') cs)
  let (fraction, cs) :=
    match cs with
    | '.' :: rest => (rest.takeWhile Char.isDigit, rest.dropWhile Char.isDigit)
    | _ => ([], cs)
  return ⟨hour, minute, second, microseconds fraction, ← readZone? cs⟩

/-- The moment of a text of its form. A date alone has two digits for its month and its day. -/
def readMoment? (cs : List Char) : Option Moment := do
  let (year, cs) ← takeNumber? 4 4 cs
  let cs ← takeChar? (· = '-') cs
  let (month, cs') ← takeNumber? 1 2 cs
  let monthSize := cs.length - cs'.length
  let cs ← takeChar? (· = '-') cs'
  let (day, cs') ← takeNumber? 1 2 cs
  if cs'.isEmpty then
    if monthSize = 2 ∧ cs.length = 2 then some ⟨year, month, day, none⟩ else none
  else return ⟨year, month, day, some (← readTime? cs')⟩

end RuleLang.Yaml
