import Mathlib.Data.List.Basic
import RuleLang.Json
import RuleLang.Yaml.Scalar

/-!
Reading JSON text. The text is cut into symbols, which blanks may separate (`symbols?`), and a
machine goes through the symbols one by one (`step`); it keeps the arrays and objects that have been
begun. Besides numbers with a point or an exponent, the words `NaN`, `Infinity` and `-Infinity`
stand for doubles. Of the fields of an object with the same name the last one counts.
-/
namespace RuleLang.Json

/-! ## Strings -/

/-- The characters that may stand behind a backslash, and what they stand for. -/
def escapes : List (Char × Char) :=
  [('"', '"'), ('\\', '\\'), ('/', '/'), ('b', '\x08'), ('f', '\x0c'), ('n', '\n'), ('r', '\r'),
   ('t', '\t')]

def inFront (units : List Nat) (read : Option (List Nat × List Char)) :
    Option (List Nat × List Char) :=
  read.map fun (more, rest) => (units ++ more, rest)

/-- The units of a string up to its closing quote, and what follows it. A unit is the number of a
character, or four hexadecimal digits of an escape sequence. Control characters have to be
escaped. -/
def readUnits : List Char → Option (List Nat × List Char)
  | [] => none
  | c :: rest =>
    if c = '"' then some ([], rest)
    else if c = '\\' then
      match rest with
      | 'u' :: c₁ :: c₂ :: c₃ :: c₄ :: rest =>
        (Yaml.hexNumber? [c₁, c₂, c₃, c₄]).bind fun unit => inFront [unit] (readUnits rest)
      | c :: rest => (escapes.lookup c).bind fun d => inFront [d.toNat] (readUnits rest)
      | [] => none
    else if c.toNat < 0x20 then none
    else inFront [c.toNat] (readUnits rest)

/-- The characters of units, where two surrogates stand for one character beyond `U+FFFF`. -/
def characters? : List Nat → Option (List Char)
  | [] => some []
  | u :: units =>
    if 0xD800 ≤ u ∧ u < 0xDC00 then
      match units with
      | v :: units =>
        if 0xDC00 ≤ v ∧ v < 0xE000 then
          (characters? units).map
            (Char.ofNat (0x10000 + (u - 0xD800) * 0x400 + (v - 0xDC00)) :: ·)
        else none
      | [] => none
    else if 0xDC00 ≤ u ∧ u < 0xE000 then none
    else (characters? units).map (Char.ofNat u :: ·)

def readString (text : List Char) : Option (Json × List Char) := do
  let (units, rest) ← readUnits text
  let cs ← characters? units
  return (.string (String.ofList cs), rest)

/-! ## Numbers -/

/-- The digits of a number, with its exponent if it has one. -/
structure Numeral where
  negative : Bool
  whole : List Char
  fraction : List Char
  exponent : Option Int

/-- A number with a point or an exponent is a double. -/
def Numeral.number (n : Numeral) : Number :=
  if n.fraction = [] ∧ n.exponent = none then
    let value : Int := Nat.ofDigitChars 10 n.whole 0
    .int (if n.negative then -value else value)
  else
    .float (.ofDecimal n.negative
      ⟨Nat.ofDigitChars 10 (n.whole ++ n.fraction) 0, n.exponent.getD 0 - n.fraction.length⟩)

/-- The digits at the beginning of a text, at least one, and what follows them. -/
def readDigits (text : List Char) : Option (List Char × List Char) :=
  if text.takeWhile Char.isDigit = [] then none
  else some (text.takeWhile Char.isDigit, text.dropWhile Char.isDigit)

/-- Digits that begin with a zero only if that is all. -/
def readWhole (text : List Char) : Option (List Char × List Char) := do
  let (digits, rest) ← readDigits text
  if digits.head? = some '0' ∧ digits ≠ ['0'] then none else return (digits, rest)

/-- The digits behind a point, if there is one. -/
def readFraction : List Char → Option (List Char × List Char)
  | '.' :: rest => readDigits rest
  | text => some ([], text)

/-- The exponent, if there is one: an integer that may have a sign of either kind. -/
def readExponent : List Char → Option (Option Int × List Char)
  | [] => some (none, [])
  | e :: text =>
    if e = 'e' ∨ e = 'E' then do
      let (digits, rest) ← readDigits (match text with
        | '+' :: rest | '-' :: rest => rest
        | rest => rest)
      let value : Int := Nat.ofDigitChars 10 digits 0
      return (some (if text.head? = some '-' then -value else value), rest)
    else some (none, e :: text)

/-- The number at the beginning of a text, and what follows it. -/
def readNumber (text : List Char) : Option (Json × List Char) := do
  let negative : Bool := text.head? = some '-'
  let (whole, rest) ← readWhole (if negative then text.tail else text)
  let (fraction, rest) ← readFraction rest
  let (exponent, rest) ← readExponent rest
  return (.number (Numeral.number ⟨negative, whole, fraction, exponent⟩), rest)

/-! ## Symbols -/

inductive Symbol where
  | leftBracket | rightBracket | leftBrace | rightBrace | comma | colon
  | scalar (v : Json)

def marks : List (Char × Symbol) :=
  [('[', .leftBracket), (']', .rightBracket), ('{', .leftBrace), ('}', .rightBrace),
   (',', .comma), (':', .colon)]

/-- The words that stand for values. -/
def words : List (String × Json) :=
  [("null", .null), ("true", .bool true), ("false", .bool false), ("NaN", .number (.float .nan)),
   ("Infinity", .number (.float (.infinite false))),
   ("-Infinity", .number (.float (.infinite true)))]

/-- The word at the beginning of a text, and what follows it. -/
def readWord (text : List Char) : Option (Json × List Char) :=
  words.findSome? fun (word, v) => (word.toList.isPrefixOf? text).map (v, ·)

def readScalar (c : Char) (rest : List Char) : Option (Json × List Char) :=
  if c = '"' then readString rest
  else (readNumber (c :: rest)).or (readWord (c :: rest))

def readSymbol (c : Char) (rest : List Char) : Option (Symbol × List Char) :=
  match marks.lookup c with
  | some s => some (s, rest)
  | none => (readScalar c rest).map fun (v, rest) => (.scalar v, rest)

def isBlank (c : Char) : Bool := c = ' ' || c = '\t' || c = '\n' || c = '\r'

/-! Every symbol has a character, so what follows it is shorter than the text. -/

section Lengths

variable {text rest : List Char} {v : Json}

theorem exists_of_inFront {units more : List Nat} {read : Option (List Nat × List Char)}
    (h : inFront units read = some (more, rest)) : ∃ behind, read = some (behind, rest) := by
  obtain ⟨⟨behind, rest'⟩, hread, heq⟩ := Option.map_eq_some_iff.1 h
  obtain ⟨-, rfl⟩ := Prod.mk.inj heq
  exact ⟨behind, hread⟩

theorem length_le_of_readUnits {units : List Nat} (h : readUnits text = some (units, rest)) :
    rest.length ≤ text.length := by
  fun_induction readUnits text generalizing units with
  | case1 | case5 | case6 => cases h
  | case2 tail =>
    obtain ⟨-, rfl⟩ := Prod.mk.inj (Option.some.inj h)
    exact Nat.le_succ _
  | case3 _ _ _ _ tail _ ih | case4 _ tail _ _ ih =>
    obtain ⟨_, -, h⟩ := Option.bind_eq_some_iff.1 h
    obtain ⟨more, hread⟩ := exists_of_inFront h
    have := ih hread
    simp only [List.length_cons]
    omega
  | case7 _ tail _ _ _ ih =>
    obtain ⟨more, hread⟩ := exists_of_inFront h
    exact Nat.le_succ_of_le (ih hread)

theorem length_le_of_readString (h : readString text = some (v, rest)) :
    rest.length ≤ text.length := by
  simp only [readString, Option.bind_eq_bind, Option.bind_eq_some_iff, Prod.exists] at h
  obtain ⟨units, rest', hread, cs, -, heq⟩ := h
  obtain ⟨-, rfl⟩ := Prod.mk.inj (Option.some.inj heq)
  exact length_le_of_readUnits hread

theorem length_lt_of_readDigits {digits : List Char} (h : readDigits text = some (digits, rest)) :
    rest.length < text.length := by
  unfold readDigits at h
  split at h
  · cases h
  · rename_i hsome
    obtain ⟨rfl, rfl⟩ := Prod.mk.inj (Option.some.inj h)
    have hpos := List.length_pos_iff.2 hsome
    have hlength := congrArg List.length
      (List.takeWhile_append_dropWhile (p := Char.isDigit) (l := text))
    rw [List.length_append] at hlength
    omega

theorem length_lt_of_readWhole {digits : List Char} (h : readWhole text = some (digits, rest)) :
    rest.length < text.length := by
  simp only [readWhole, Option.bind_eq_bind, Option.bind_eq_some_iff, Prod.exists] at h
  obtain ⟨_, _, hread, heq⟩ := h
  split at heq
  · cases heq
  · obtain ⟨-, rfl⟩ := Prod.mk.inj (Option.some.inj heq)
    exact length_lt_of_readDigits hread

theorem length_le_of_readFraction {digits : List Char}
    (h : readFraction text = some (digits, rest)) : rest.length ≤ text.length := by
  unfold readFraction at h
  split at h
  · exact Nat.le_succ_of_le (Nat.le_of_lt (length_lt_of_readDigits h))
  · obtain ⟨-, rfl⟩ := Prod.mk.inj (Option.some.inj h)
    exact Nat.le_refl _

theorem length_le_of_readExponent {exponent : Option Int}
    (h : readExponent text = some (exponent, rest)) : rest.length ≤ text.length := by
  unfold readExponent at h
  split at h
  · obtain ⟨-, rfl⟩ := Prod.mk.inj (Option.some.inj h)
    exact Nat.le_refl _
  · split at h
    · simp only [Option.bind_eq_bind, Option.bind_eq_some_iff, Prod.exists] at h
      obtain ⟨_, _, hread, heq⟩ := h
      obtain ⟨-, rfl⟩ := Prod.mk.inj (Option.some.inj heq)
      have := length_lt_of_readDigits hread
      split at this <;> simp only [List.length_cons] at this ⊢ <;> omega
    · obtain ⟨-, rfl⟩ := Prod.mk.inj (Option.some.inj h)
      exact Nat.le_refl _

theorem length_lt_of_readNumber (h : readNumber text = some (v, rest)) :
    rest.length < text.length := by
  simp only [readNumber, Option.bind_eq_bind, Option.bind_eq_some_iff, Prod.exists] at h
  obtain ⟨_, _, hwhole, _, _, hfraction, _, _, hexponent, heq⟩ := h
  obtain ⟨-, rfl⟩ := Prod.mk.inj (Option.some.inj heq)
  have hsign : (if decide (text.head? = some '-') then text.tail else text).length ≤
      text.length := by
    split
    · exact List.length_tail ▸ Nat.sub_le _ _
    · exact Nat.le_refl _
  have hwhole := length_lt_of_readWhole hwhole
  have hfraction := length_le_of_readFraction hfraction
  have hexponent := length_le_of_readExponent hexponent
  omega

theorem length_lt_of_readWord (h : readWord text = some (v, rest)) : rest.length < text.length := by
  have hwords : ∀ p ∈ words, 0 < p.1.toList.length := by decide
  obtain ⟨⟨word, w⟩, hmem, hread⟩ := List.exists_of_findSome?_eq_some h
  obtain ⟨rest', hprefix, heq⟩ := Option.map_eq_some_iff.1 hread
  obtain ⟨-, rfl⟩ := Prod.mk.inj heq
  have hpos : 0 < word.toList.length := hwords _ hmem
  rw [← List.append_eq_of_isPrefixOf?_eq_some hprefix, List.length_append]
  omega

theorem length_le_of_readSymbol {c : Char} {s : Symbol} (h : readSymbol c text = some (s, rest)) :
    rest.length ≤ text.length := by
  unfold readSymbol at h
  split at h
  · obtain ⟨-, rfl⟩ := Prod.mk.inj (Option.some.inj h)
    exact Nat.le_refl _
  · obtain ⟨⟨v, rest'⟩, hread, heq⟩ := Option.map_eq_some_iff.1 h
    obtain ⟨-, rfl⟩ := Prod.mk.inj heq
    unfold readScalar at hread
    split at hread
    · exact length_le_of_readString hread
    · refine Nat.le_of_lt_succ ?_
      obtain hnumber | ⟨-, hword⟩ := Option.or_eq_some_iff.1 hread
      · exact length_lt_of_readNumber hnumber
      · exact length_lt_of_readWord hword

end Lengths

def symbols? (text : List Char) : Option (List Symbol) :=
  match text with
  | [] => some []
  | c :: rest =>
    if isBlank c then symbols? rest
    else
      match _h : readSymbol c rest with
      | none => none
      | some (s, behind) => (symbols? behind).map (s :: ·)
termination_by text.length
decreasing_by
  · exact Nat.lt_succ_self _
  · exact Nat.lt_succ_of_le (length_le_of_readSymbol _h)

/-! ## Values -/

/-- An array or an object that has been begun, with what was read of it. In an object, the value of
a field comes next. -/
inductive Frame where
  | array (items : List Json)
  | object (fields : List (String × Json)) (name : String)

/-- What comes next, within the given arrays and objects, of which the inner ones come first. -/
inductive Reading where
  | value (outer : List Frame)
  /-- The first item of an array or its end. -/
  | firstItem (outer : List Frame)
  /-- The first field of an object or its end. -/
  | firstField (outer : List Frame)
  | field (fields : List (String × Json)) (outer : List Frame)
  | colon (fields : List (String × Json)) (name : String) (outer : List Frame)
  /-- What may come behind a value. -/
  | behind (v : Json) (outer : List Frame)

/-- Gives a field a value: a field that is there keeps its place. -/
def put (name : String) (v : Json) : List (String × Json) → List (String × Json)
  | [] => [(name, v)]
  | (key, w) :: fields =>
    if key = name then (key, v) :: fields else (key, w) :: put name v fields

def beginValue (outer : List Frame) : Symbol → Option Reading
  | .scalar v => some (.behind v outer)
  | .leftBracket => some (.firstItem outer)
  | .leftBrace => some (.firstField outer)
  | _ => none

def beginField (fields : List (String × Json)) (outer : List Frame) : Symbol → Option Reading
  | .scalar (.string name) => some (.colon fields name outer)
  | _ => none

/-- One symbol further. -/
def step : Reading → Symbol → Option Reading
  | .value outer, s => beginValue outer s
  | .firstItem outer, .rightBracket => some (.behind (.array []) outer)
  | .firstItem outer, s => beginValue (.array [] :: outer) s
  | .firstField outer, .rightBrace => some (.behind (.object []) outer)
  | .firstField outer, s => beginField [] outer s
  | .field fields outer, s => beginField fields outer s
  | .colon fields name outer, .colon => some (.value (.object fields name :: outer))
  | .behind v (.array items :: outer), .comma => some (.value (.array (items ++ [v]) :: outer))
  | .behind v (.array items :: outer), .rightBracket =>
    some (.behind (.array (items ++ [v])) outer)
  | .behind v (.object fields name :: outer), .comma => some (.field (put name v fields) outer)
  | .behind v (.object fields name :: outer), .rightBrace =>
    some (.behind (.object (put name v fields)) outer)
  | _, _ => none

/-- The value of a JSON text, if it is one. -/
def read? (text : String) : Option Json := do
  let symbols ← symbols? text.toList
  match ← symbols.foldlM step (.value []) with
  | .behind v [] => return v
  | _ => none

example : ["[1, {}]", "[1,]", "[01]", "[1 2]", "{1: 2}"].map (read? · |>.isSome) =
    [true, false, false, false, false] := by decide +kernel

end RuleLang.Json
