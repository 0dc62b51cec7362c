import RuleLang.Yaml.Cursor

/-!
Scalars in YAML text, which may go over several lines: a line break between two lines counts as a
space, and of more breaks in a row the first one does not count.
-/
namespace RuleLang.Yaml

/-- The further line breaks behind a first one, and whether a mark between documents follows. Blanks
of the given class at the beginning of lines are passed. -/
def passBreaks (blank : Char → Bool) : (count : Nat) → Cursor → List Char × Bool × Cursor
  | 0, c => ([], c.atDocumentMark, c)
  | count + 1, c =>
    if c.atDocumentMark then ([], true, c)
    else
      let c := c.passWhile blank
      match c.passBreak with
      | ([], _) => ([], false, c)
      | (first, c) =>
        let (more, marked, c) := passBreaks blank count c
        (first ++ more, marked, c)

/-- What a first line break and the further ones count as. -/
def foldBreaks (first more : List Char) : List Char :=
  if first ≠ ['\n'] then first ++ more else if more.isEmpty then [' '] else more

/-- A scalar, the cursor behind it, and whether a key may follow, which it may on a new line. -/
structure Plain where
  text : List Char
  cursor : Cursor
  newLine : Bool

/-- The characters of a plain scalar up to the next blank, or to a mark that ends the scalar. -/
def plainRun (inFlow : Bool) : List Char → List Char
  | [] => []
  | c :: rest =>
    let colonEnds :=
      endsWord rest.head? || (inFlow && (rest.head?.any (· ∈ [',', '[', ']', '{', '}'])))
    if endsWord (some c) || (c = ':' && colonEnds) ||
        (inFlow && c ∈ [',', '?', '[', ']', '{', '}']) then []
    else c :: plainRun inFlow rest

/-- The rest of a plain scalar, of which `text` was read and after which `blanks` were passed. The
lines of a block have to begin at the given column at least. -/
def plainFrom (inFlow : Bool) (column : Int) :
    (count : Nat) → (text blanks : List Char) → Cursor → Bool → Plain
  | 0, text, _, c, newLine => ⟨text, c, newLine⟩
  | count + 1, text, blanks, c, newLine =>
    let run := if c.peek = some '#' then [] else plainRun inFlow c.rest
    if run.isEmpty then ⟨text, c, newLine⟩
    else
      let text := text ++ blanks ++ run
      let c := c.pass run.length
      let spaces := c.rest.takeWhile (· = ' ')
      let c := c.pass spaces.length
      match c.passBreak with
      | ([], _) =>
        if spaces.isEmpty then ⟨text, c, false⟩
        else plainFrom inFlow column count text spaces c false
      | (first, c) =>
        let (more, marked, c) := passBreaks (· = ' ') c.rest.length c
        if marked || (!inFlow && (c.column : Int) < column) then ⟨text, c, true⟩
        else plainFrom inFlow column count text (foldBreaks first more) c true

def readPlain (inFlow : Bool) (column : Int) (c : Cursor) : Plain :=
  plainFrom inFlow column c.rest.length [] [] c false

def escapes : List (Char × Char) :=
  [('0', '\x00'), ('a', '\x07'), ('b', '\x08'), ('t', '\t'), ('\t', '\t'), ('n', '\n'),
   ('v', '\x0b'), ('f', '\x0c'), ('r', '\r'), ('e', '\x1b'), (' ', ' '), ('"', '"'), ('\\', '\\'),
   ('/', '/'), ('N', '\x85'), ('_', '\xa0'), ('L', '\u2028'), ('P', '\u2029')]

/-- The number of hexadecimal digits of a character given by its number. -/
def escapeWidths : List (Char × Nat) := [('x', 2), ('u', 4), ('U', 8)]

def hexValue? (c : Char) : Option Nat :=
  if c.isDigit then some (c.toNat - 48)
  else if 'a' ≤ c ∧ c ≤ 'f' then some (c.toNat - 87)
  else if 'A' ≤ c ∧ c ≤ 'F' then some (c.toNat - 55)
  else none

def hexNumber? (digits : List Char) : Option Nat :=
  digits.foldl (fun n c => do return (← n) * 16 + (← hexValue? c)) (some 0)

def readEscape (c : Cursor) : Except Fault (List Char × Cursor) :=
  match c.peek with
  | none => .error .malformed
  | some ch =>
    match escapes.lookup ch, escapeWidths.lookup ch with
    | some d, _ => .ok ([d], c.next)
    | none, some width =>
      let digits := c.next.rest.take width
      match hexNumber? digits with
      | some n =>
        if digits.length < width then .error .malformed
        else if 0x110000 ≤ n then .error (.value .noCharacter)
        else .ok ([Char.ofNat n], c.next.pass width)
      | none => .error .malformed
    | none, none =>
      if isBreak ch then
        let c := c.passBreak.2
        let (more, marked, c) := passBreaks (fun d => d = ' ' || d = '\t') c.rest.length c
        if marked then .error .malformed else .ok (more, c)
      else .error .malformed

/-- The rest of a quoted scalar, of which `text` was read, up to its closing quote. -/
def quotedFrom (quote : Char) : (count : Nat) → (text : List Char) → Cursor →
    Except Fault (List Char × Cursor)
  | 0, _, _ => .error .malformed
  | count + 1, text, c =>
    match c.peek with
    | none => .error .malformed
    | some ch =>
      if ch = quote then
        if quote = '\'' ∧ c.peekSecond = some '\'' then
          quotedFrom quote count (text ++ ['\'']) (c.pass 2)
        else .ok (text, c.next)
      else if ch = '\\' ∧ quote = '"' then
        match readEscape c.next with
        | .ok (d, c) => quotedFrom quote count (text ++ d) c
        | .error e => .error e
      else if endsWord (some ch) then
        let blanks := c.rest.takeWhile fun d => d = ' ' || d = '\t'
        let c := c.pass blanks.length
        match c.passBreak with
        | ([], _) => quotedFrom quote count (text ++ blanks) c
        | (first, c) =>
          let (more, marked, c) := passBreaks (fun d => d = ' ' || d = '\t') c.rest.length c
          if marked then .error .malformed
          else quotedFrom quote count (text ++ foldBreaks first more) c
      else quotedFrom quote count (text ++ [ch]) c.next

def readQuoted (quote : Char) (c : Cursor) : Except Fault (List Char × Cursor) :=
  quotedFrom quote (c.rest.length + 1) [] c.next

end RuleLang.Yaml
