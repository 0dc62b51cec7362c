import RuleLang.Proofs.Token.Faults

/-!
Literals as they are printed. The printer writes the value of a literal, which the lexer has read
from its lexeme; so printing can change the lexeme, and `literalText_lexed` says how. A string keeps
its spelling but for its line feeds, which become escapes, and for the backslashes of its unknown
escapes, which are escaped themselves. An integer loses its leading zeros. The printer knows the
value alone, so behind each escape the induction has to tell again whether a backslash is escaped:
the number of backslashes in front of it is even wherever a character of the value begins.
-/
namespace RuleLang

namespace Lexical

/-! ## Strings -/

/-- A character of the lexeme of a string as it is printed, where an unknown escape may begin with
it. -/
def printedChar (unknown : Bool) (c : Char) : List Char :=
  if c = '\n' then ['\\', 'n'] else if unknown then [c, c] else [c]

/-- What stands behind the front of a lexeme, as it is printed. -/
def printedBehind (front behind : List Char) : List Char :=
  (behind.zipIdx front.length).flatMap fun (c, k) =>
    printedChar (isUnknownEscape (front ++ behind) k) c

/-- The lexeme of a string as it is printed: each line feed is a backslash and `n`, and the
backslash of each unknown escape is doubled. -/
def printedString (lexeme : List Char) : List Char := printedBehind [] lexeme

/-- A lexeme with a backslash and `n` for each line feed, and otherwise as it is. -/
def escapedFeeds (lexeme : List Char) : List Char :=
  lexeme.flatMap fun c => if c = '\n' then ['\\', 'n'] else [c]

theorem printedBehind_cons (front : List Char) (c : Char) (behind : List Char) :
    printedBehind front (c :: behind) =
      printedChar (isUnknownEscape (front ++ c :: behind) front.length) c ++
        printedBehind (front ++ [c]) behind := by
  simp [printedBehind]

theorem printedBehind_raw {c : Char} (hc : c ≠ '\\') (front behind : List Char) :
    printedBehind front (c :: behind) =
      printedChar false c ++ printedBehind (front ++ [c]) behind := by
  simp [printedBehind_cons, isUnknownEscape_front, hc]

theorem printedBehind_escaped {front : List Char} (h : backslashesAtEnd front % 2 = 0) (c : Char)
    (behind : List Char) :
    printedBehind front ('\\' :: c :: behind) =
      (if c ∈ escapable then ['\\'] else ['\\', '\\']) ++
        (printedChar false c ++ printedBehind (front ++ ['\\', c]) behind) := by
  rw [printedBehind_cons, printedBehind_cons, isUnknownEscape_escaped h, isUnknownEscape_front, h]
  by_cases hc : c ∈ escapable <;> simp [hc, printedChar]

/-- A character that stands for itself is printed as the printer writes it. -/
theorem printedChar_false {c : Char} (hquote : c ≠ '"') (hbackslash : c ≠ '\\') :
    printedChar false c = escapeLiteralChar c := by
  simp [printedChar, escapeLiteralChar, hquote, hbackslash]

/-- What the printer writes for the value of a body is the body as it is printed. -/
theorem Body.printedBehind_eq {body value : List Char} (h : Body body value) {front : List Char}
    (hfront : backslashesAtEnd front % 2 = 0) :
    printedBehind front (body ++ ['"']) = value.flatMap escapeLiteralChar ++ ['"'] := by
  induction h generalizing front with
  | empty => simp [printedBehind, printedChar, isUnknownEscape_front]
  | @plain c body value hquote hbackslash _ ih =>
    have heven : backslashesAtEnd (front ++ [c]) % 2 = 0 := by simp [hbackslash]
    rw [List.cons_append, printedBehind_raw hbackslash, ih heven,
      printedChar_false hquote hbackslash, List.flatMap_cons, List.append_assoc]
  | quote _ ih | backslash _ ih | lineFeed _ ih =>
    have heven := backslashesAtEnd_escaped hfront
    rw [List.cons_append, List.cons_append, printedBehind_escaped hfront, ih (heven _),
      List.flatMap_cons, List.append_assoc]
    rfl
  | @unknown c body value hc _ ih =>
    have heven := backslashesAtEnd_escaped hfront c
    have hplain : c ≠ '"' ∧ c ≠ '\\' := by
      constructor <;> rintro rfl <;> simp at hc
    rw [List.cons_append, List.cons_append, printedBehind_escaped hfront, ih heven,
      if_neg (show c ∉ escapable from hc), printedChar_false hplain.1 hplain.2, List.flatMap_cons,
      List.flatMap_cons, List.append_assoc, List.append_assoc]
    rfl

/-- Without unknown escapes, only line feeds are printed otherwise. -/
theorem printedString_eq {lexeme : List Char} (hquote : lexeme.head? = some '"')
    (h : unknownEscapes lexeme = []) : printedString lexeme = escapedFeeds lexeme := by
  have hnone : ∀ k < lexeme.length, isUnknownEscape lexeme k = false := by
    rw [unknownEscapes, if_pos hquote, unknownEscapesBehind, List.filter_eq_nil_iff] at h
    exact fun k hk => by simpa using h k (by simpa [List.mem_range'_1] using hk)
  have hchars : ∀ x ∈ lexeme.zipIdx, printedChar (isUnknownEscape lexeme x.2) x.1 =
      if x.1 = '\n' then ['\\', 'n'] else [x.1] := by
    intro x hx
    rw [hnone x.2 (List.snd_lt_of_mem_zipIdx hx)]
    rfl
  calc printedString lexeme
      = lexeme.zipIdx.flatMap fun x => if x.1 = '\n' then ['\\', 'n'] else [x.1] :=
        List.flatMap_congr hchars
    _ = escapedFeeds (lexeme.zipIdx.map Prod.fst) := by rw [escapedFeeds, List.flatMap_map]
    _ = escapedFeeds lexeme := by rw [List.zipIdx_map_fst]

/-! ## Integers -/

/-- Digits without the zeros in front of them, of which one is left if there is nothing else. -/
def withoutZeros : List Char → List Char
  | '0' :: c :: cs => withoutZeros (c :: cs)
  | cs => cs

theorem exists_digitChar {c : Char} (hc : c.isDigit = true) : ∃ d < 10, Nat.digitChar d = c := by
  have hrange := toNat_of_isDigit hc
  refine ⟨c.toNat - 48, by omega, Char.toNat_inj.1 ?_⟩
  rw [Nat.toNat_digitChar_of_lt_ten (by omega)]
  omega

/-- Digits behind a number that is not zero are written as they are. -/
theorem toDigits_ofDigitChars {n : Nat} (hn : 0 < n) {cs : List Char}
    (h : ∀ c ∈ cs, c.isDigit = true) :
    Nat.toDigits 10 (Nat.ofDigitChars 10 cs n) = Nat.toDigits 10 n ++ cs := by
  induction cs generalizing n with
  | nil => simp
  | cons c cs ih =>
    obtain ⟨hc, hcs⟩ := List.forall_mem_cons.1 h
    obtain ⟨d, hd, rfl⟩ := exists_digitChar hc
    rw [Nat.ofDigitChars_cons_digitChar_of_lt_ten hd, ih (by omega) hcs,
      ← Nat.toDigits_append_toDigits (by decide) hn hd, Nat.toDigits_of_lt_base hd,
      List.append_assoc, List.singleton_append]

/-- The number of some digits is written without the zeros in front of them. -/
theorem toDigits_withoutZeros {digits : List Char} (h : IsDigits digits) :
    Nat.toDigits 10 (Nat.ofDigitChars 10 digits 0) = withoutZeros digits := by
  obtain ⟨hne, hdigits⟩ := h
  fun_induction withoutZeros digits with
  | case1 c cs ih =>
    rw [Nat.ofDigitChars_cons]
    exact ih (List.cons_ne_nil c cs) (List.forall_mem_cons.1 hdigits).2
  | case2 digits hzero =>
    obtain ⟨c, cs, rfl⟩ := List.exists_cons_of_ne_nil hne
    obtain ⟨hc, hcs⟩ := List.forall_mem_cons.1 hdigits
    obtain ⟨d, hd, rfl⟩ := exists_digitChar hc
    rw [Nat.ofDigitChars_cons_digitChar_of_lt_ten hd, Nat.mul_zero, Nat.zero_add]
    cases d with
    | zero =>
      -- behind a zero that stays there is nothing else
      cases cs with
      | nil => rfl
      | cons c cs => exact (hzero c cs rfl).elim
    | succ d =>
      rw [toDigits_ofDigitChars d.succ_pos hcs, Nat.toDigits_of_lt_base hd, List.singleton_append]

/-! ## Words -/

/-- Texts and numbers are the words that begin with a quote or a digit. -/
theorem WordAt.literal_cases {text : List Char} {w : Word} (h : WordAt text w)
    (hkind : w.kind = .string ∨ w.kind = .number) :
    (∃ cs, StringWord cs w) ∨ NumberWord text w := by
  have hreserved : ∀ p ∈ reserved, ¬(p.2 = .string ∨ p.2 = .number) := by decide
  have hmarks : ∀ p ∈ marks, ¬(p.2 = .string ∨ p.2 = .number) := by decide
  cases h with
  | string h => exact .inl ⟨_, h⟩
  | number _ h => exact .inr h
  | name _ h =>
    cases h with
    | reserved _ h => exact absurd hkind (hreserved _ h)
    | name => simp at hkind
  | mark _ _ _ h =>
    cases h with
    | mark _ h => exact absurd hkind (hmarks _ h)
    | unexpected => simp at hkind

theorem WordAt.exists_body {text : List Char} {w : Word} (h : WordAt text w)
    (hkind : w.kind = .string) : ∃ body value, Body body value ∧
      w.lexeme = '"' :: body ++ ['"'] ∧ w.value = .text (String.ofList value) := by
  obtain ⟨_, h⟩ | h := h.literal_cases (.inl hkind)
  · cases h with
    | closed hbody => exact ⟨_, _, hbody, rfl, rfl⟩
    | unclosed => cases hkind
  · cases h <;> cases hkind

theorem WordAt.isDigits {text : List Char} {w : Word} (h : WordAt text w)
    (hkind : w.kind = .number) {n : Int} (hvalue : w.value = .int n) :
    IsDigits w.lexeme ∧ n = Nat.ofDigitChars 10 w.lexeme 0 := by
  obtain ⟨_, h⟩ | h := h.literal_cases (.inr hkind)
  · cases h <;> cases hkind
  · cases h with
    | integer hdigits =>
      cases hvalue
      exact ⟨hdigits, rfl⟩
    | decimal => cases hvalue
    | _ => cases hkind

end Lexical

open Lexical

/-! ## Tokens -/

section Tokens

variable {source file : String} {t : Token}

theorem literalText_string (h : t ∈ (lex source file).tokens) (hkind : t.kind = .string) :
    literalText t.value = .ok (String.ofList (printedString t.lexeme.toList)) ∧
      t.lexeme.toList.head? = some '"' := by
  obtain ⟨text, hword⟩ := wordAt_of_mem_tokens h (by rw [hkind]; decide)
  obtain ⟨body, value, hbody, hlexeme, hvalue⟩ := hword.exists_body hkind
  change t.lexeme.toList = _ at hlexeme
  change t.value = _ at hvalue
  have hprinted : printedString ('"' :: body ++ ['"']) =
      '"' :: value.flatMap escapeLiteralChar ++ ['"'] := by
    rw [printedString, List.cons_append, printedBehind_raw (by decide),
      hbody.printedBehind_eq (by decide)]
    rfl
  rw [hvalue, hlexeme, hprinted, literalText, String.toList_ofList]
  exact ⟨rfl, rfl⟩

theorem literalText_integer (h : t ∈ (lex source file).tokens) (hkind : t.kind = .number) {n : Int}
    (hvalue : t.value = .int n) :
    literalText t.value = .ok (String.ofList (withoutZeros t.lexeme.toList)) := by
  have hend : t.kind ≠ .eof := by rw [hkind]; decide
  have hliteral : t.value.IsLiteral :=
    (wellMade_of_mem_lex (mem_ahead_of_mem_tokens h hend)).literal (.inl hkind)
  obtain ⟨text, hword⟩ := wordAt_of_mem_tokens h hend
  obtain ⟨hdigits, rfl⟩ := hword.isDigits hkind hvalue
  change IsDigits t.lexeme.toList at hdigits
  rw [hvalue] at hliteral ⊢
  rw [hliteral.literalText_number, ← toDigits_withoutZeros hdigits,
    ← Number.toList_write_ofNat .source, String.ofList_toList]
  rfl

/-- Printing the value of a literal gives the lexeme it was read from, put into one form. The text
of a string is its lexeme with an escape for each line feed and the backslash of each unknown escape
doubled, so without unknown escapes only line feeds are changed. The text of an integer is its
lexeme without the zeros in front of the number. -/
theorem literalText_lexed (h : t ∈ (lex source file).tokens) :
    (t.kind = .string →
      literalText t.value = .ok (String.ofList (printedString t.lexeme.toList))) ∧
    (t.kind = .string → unknownEscapes t.lexeme.toList = [] →
      literalText t.value = .ok (String.ofList (escapedFeeds t.lexeme.toList))) ∧
    (t.kind = .number → ∀ n, t.value = .int n →
      literalText t.value = .ok (String.ofList (withoutZeros t.lexeme.toList))) := by
  refine ⟨fun hkind => (literalText_string h hkind).1, fun hkind hknown => ?_,
    fun hkind n hvalue => literalText_integer h hkind hvalue⟩
  obtain ⟨htext, hquote⟩ := literalText_string h hkind
  rw [htext, printedString_eq hquote hknown]

/-- A line feed behind a backslash, a line feed alone, and an integer with zeros in front of it. -/
theorem literalText_lexed_sample :
    let tokens := (lex "\"\\\n\" \"\n\\n\" 007" "rule").tokens
    let unknown : Token := ⟨.string, "\"\\\n\"", ⟨"rule", 0, 4, 1, 1, 2, 2⟩, .text "\\\n"⟩
    let known : Token := ⟨.string, "\"\n\\n\"", ⟨"rule", 5, 10, 2, 3, 3, 4⟩, .text "\n\n"⟩
    let number : Token := ⟨.number, "007", ⟨"rule", 11, 14, 3, 5, 3, 8⟩, .int 7⟩
    [unknown, known, number] ⊆ tokens ∧
      literalText unknown.value = .ok "\"\\\\\\n\"" ∧
      literalText known.value = .ok "\"\\n\\n\"" ∧ literalText number.value = .ok "7" := by
  intro tokens unknown known number
  have htokens : [unknown, known, number] ⊆ tokens := by decide +kernel
  have hunknown : unknown ∈ tokens := htokens (by decide)
  have hknown : known ∈ tokens := htokens (by decide)
  have hnumber : number ∈ tokens := htokens (by decide)
  refine ⟨htokens, ?_, ?_, ?_⟩
  · exact ((literalText_lexed hunknown).1 rfl).trans (congrArg Except.ok (by decide +kernel))
  · exact ((literalText_lexed hknown).2.1 rfl (by decide +kernel)).trans
      (congrArg Except.ok (by decide +kernel))
  · exact ((literalText_lexed hnumber).2.2 rfl 7 rfl).trans
      (congrArg Except.ok (by decide +kernel))

end Tokens

end RuleLang
