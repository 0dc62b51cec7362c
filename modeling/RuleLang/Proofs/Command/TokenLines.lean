import Mathlib.Data.List.DropRight
import RuleLang.Proofs.Command.Requests
import RuleLang.Proofs.Lines
import RuleLang.Proofs.Text.Conveyed
import RuleLang.Proofs.Token.Literals

/-!
Tokens on lines of their own. A token is printed as its row, which is its place, its kind and its
text, without the blanks at the end of the row. So the lines that are printed are the rows exactly
if the text of no token holds a line feed or ends in a blank (`tokens_lines`), and only strings and
invalid tokens may have such a text.
-/
namespace RuleLang

/-! ## Blanks -/

namespace Text

theorem trimEnd_eq_self_iff {cs : List Char} :
    trimEnd cs = cs ↔ ∀ c ∈ cs.getLast?, isBlank c = false := by
  change cs.rdropWhile isBlank = cs ↔ _
  rw [List.rdropWhile_eq_self_iff]
  constructor
  · intro h c hc
    obtain ⟨hne, rfl⟩ := List.mem_getLast?_eq_getLast hc
    exact Bool.eq_false_iff.2 (h hne)
  · exact fun h hne => Bool.eq_false_iff.1 (h _ (List.getLast_mem_getLast? hne))

theorem trimEnd_append_blank (cs : List Char) : trimEnd (cs ++ [' ']) = trimEnd cs :=
  List.rdropWhile_concat_pos isBlank cs ' ' (by decide)

theorem not_isBlank {c : Char} (h : ∀ r ∈ blankRanges, c.toNat < r.1 ∨ r.2 < c.toNat) :
    isBlank c = false := by
  rw [Bool.eq_false_iff]
  intro hblank
  obtain ⟨r, hr, hbounds⟩ := exists_of_inRanges hblank
  have := h r hr
  omega

theorem not_isBlank_of_isDigit {c : Char} (h : c.isDigit = true) : isBlank c = false := by
  have hranges : ∀ r ∈ blankRanges, r.2 < 48 ∨ 57 < r.1 := by decide
  have hdigit := toNat_of_isDigit h
  refine not_isBlank fun r hr => ?_
  have := hranges r hr
  omega

/-- No letter is blank. -/
theorem not_isBlank_of_isLetter {c : Char} (h : isLetter c = true) : isBlank c = false := by
  rw [isLetter] at h
  split at h
  · have hranges : ∀ r ∈ blankRanges, r.2 < 65 ∨ 128 ≤ r.1 := by decide
    have halpha := toNat_of_isAlpha h
    refine not_isBlank fun r hr => ?_
    have := hranges r hr
    omega
  · have hranges : ∀ r ∈ blankRanges, ∀ l ∈ letterRanges, r.2 < l.1 ∨ l.2 < r.1 := by
      decide +kernel
    obtain ⟨l, hl, hbounds⟩ := exists_of_inRanges h
    refine not_isBlank fun r hr => ?_
    have := hranges r hr l hl
    omega

theorem not_isBlank_of_isNamePart {c : Char} (h : Lexical.IsNamePart c) : isBlank c = false := by
  obtain hletter | hdigit | rfl := h
  · exact not_isBlank_of_isLetter hletter
  · exact not_isBlank_of_isDigit hdigit
  · decide

end Text

open Text

/-- Only strings and invalid words hold blanks. -/
theorem Lexical.WordAt.not_isBlank {text : List Char} {w : Word} (h : WordAt text w)
    (hstring : w.kind ≠ .string) (hvalid : w.kind ≠ .invalid) :
    ∀ c ∈ w.lexeme, isBlank c = false := by
  have hmarks : ∀ p ∈ marks, p.1.all (!isBlank ·) = true := by decide
  have hrun {run : List Char} (h : IsRun run) : ∀ c ∈ run, isBlank c = false := by
    obtain ⟨c, rest, rfl, hc, hrest⟩ := h
    exact List.forall_mem_cons.2 ⟨not_isBlank_of_isNamePart hc.isNamePart,
      fun d hd => not_isBlank_of_isNamePart (hrest d hd)⟩
  have hdigits {digits : List Char} (h : IsDigits digits) : ∀ c ∈ digits, isBlank c = false :=
    fun c hc => not_isBlank_of_isDigit (h.2 c hc)
  cases h with
  | string h => cases h <;> contradiction
  | number _ h =>
    cases h with
    | integer h => exact hdigits h
    | decimal hwhole hfraction =>
      exact List.forall_mem_append.2 ⟨hdigits hwhole,
        List.forall_mem_cons.2 ⟨by decide, hdigits hfraction⟩⟩
    | _ => contradiction
  | name _ h =>
    cases h with
    | reserved h => exact hrun h.holds
    | name h => exact hrun h.holds
  | mark _ _ _ h =>
    cases h with
    | mark _ h => simpa using hmarks _ h
    | unexpected => contradiction

/-! ## Rows -/

namespace Token

/-- Where a token begins, and its kind. -/
def heading (t : Token) : String :=
  toString t.span.line ++ ":" ++ toString t.span.column ++ " " ++ t.kind.label

/-- A token on a line: its heading and its text. The end of the source has no text. -/
def row (t : Token) : String := if t.kind = .eof then t.heading else t.heading ++ " " ++ t.lexeme

/-- The row of a token without the blanks at its end. -/
def shown (t : Token) : String := String.ofList (trimEnd t.row.toList)

/-- The text of a token can stand at the end of a line. -/
structure FitsLine (t : Token) : Prop where
  feedless : '\n' ∉ t.lexeme.toList
  visible : ∀ c ∈ t.lexeme.toList.getLast?, isBlank c = false

theorem isVisible_heading (t : Token) : ∀ c ∈ t.heading.toList, Json.IsVisible c := by
  have hlabel : ∀ c ∈ t.kind.label.toList, Json.IsVisible c := by
    apply Json.isVisible_of_all
    cases t.kind <;> rfl
  simp only [heading, String.toList_append, List.forall_mem_append]
  exact ⟨⟨⟨⟨Json.isVisible_of_mem_int _, Json.isVisible_of_all _ rfl⟩,
    Json.isVisible_of_mem_int _⟩, Json.isVisible_of_all _ rfl⟩, hlabel⟩

theorem isBlank_heading (t : Token) : ∀ c ∈ t.heading.toList.getLast?, isBlank c = false := by
  have hlabel : t.kind.label.toList ≠ [] ∧
      t.kind.label.toList.getLast?.all (!isBlank ·) = true := by
    cases t.kind <;> decide
  rw [heading, String.toList_append, List.getLast?_append_of_ne_nil _ hlabel.1]
  simpa [Option.all_eq_true] using hlabel.2

theorem toList_row {t : Token} (h : t.kind ≠ .eof) :
    t.row.toList = t.heading.toList ++ ' ' :: t.lexeme.toList := by
  rw [row, if_neg h, String.toList_append, String.toList_append, List.append_assoc]
  rfl

end Token

/-! ## Tokens of a source -/

theorem length_le_flatMap {α β : Type} {f : α → List β} {xs : List α} (h : ∀ x ∈ xs, f x ≠ []) :
    xs.length ≤ (xs.flatMap f).length := by
  induction xs with
  | nil => exact Nat.le_refl 0
  | cons x xs ih =>
    obtain ⟨hx, hxs⟩ := List.forall_mem_cons.1 h
    have hpos := List.length_pos_iff.2 hx
    have hrest := ih hxs
    rw [List.flatMap_cons, List.length_append, List.length_cons]
    omega

/-- Where each member gives something, one for each is given only if each gives one. -/
theorem flatMap_eq_map_iff {α β : Type} {f : α → List β} {g : α → β} {xs : List α}
    (h : ∀ x ∈ xs, f x ≠ []) : xs.flatMap f = xs.map g ↔ ∀ x ∈ xs, f x = [g x] := by
  induction xs with
  | nil => simp
  | cons x xs ih =>
    obtain ⟨hx, hxs⟩ := List.forall_mem_cons.1 h
    have hrest : xs.flatMap f = xs.map g ↔ ∀ x ∈ xs, f x = [g x] := ih hxs
    rw [List.flatMap_cons, List.map_cons, List.forall_mem_cons, ← hrest]
    constructor
    · intro heq
      obtain ⟨y, more, hy⟩ := List.exists_cons_of_ne_nil hx
      rw [hy, List.cons_append, List.cons.injEq] at heq
      have hmore := congrArg List.length heq.2
      have := length_le_flatMap hxs
      rw [List.length_append, List.length_map] at hmore
      obtain rfl : more = [] := List.length_eq_zero_iff.1 (by omega)
      exact ⟨by rw [hy, heq.1], heq.2⟩
    · rintro ⟨hone, hsame⟩
      rw [hone, hsame, List.singleton_append]

section Tokens

variable {source file : String} {t : Token}

/-- Only the end of a source has no text. -/
theorem lexeme_eq_nil_iff (h : t ∈ (lex source file).tokens) :
    t.lexeme.toList = [] ↔ t.kind = .eof := by
  obtain h | h := List.mem_append.1 h
  · refine iff_of_false ?_ (endsOnce_lex t h)
    obtain ⟨p, w, hw, rfl⟩ := exists_of_mem_lex h
    obtain ⟨c, rest, rfl⟩ := exists_read_of_mem_wordsOf hw
    change (String.ofList (Word.read c rest).1.lexeme).toList ≠ []
    rw [String.toList_ofList]
    exact Word.lexeme_read_ne_nil c rest
  · rw [List.mem_singleton.1 h]
    exact iff_of_true rfl rfl

/-- The text of a token stands in its source. -/
theorem lexeme_within (h : t ∈ (lex source file).tokens) :
    t.lexeme.toList <:+: source.toList := by
  obtain h | h := List.mem_append.1 h
  · rw [ahead_lex] at h
    obtain ⟨⟨p, w⟩, hmem, rfl⟩ := List.mem_map.1 h
    obtain ⟨front, -, hprefix⟩ := exists_front hmem
    change (String.ofList w.lexeme).toList <:+: _
    rw [String.toList_ofList]
    exact (List.suffix_append front w.lexeme).isInfix.trans hprefix.isInfix
  · rw [List.mem_singleton.1 h]
    exact ⟨[], source.toList, rfl⟩

/-- The row of a token fits on a line exactly if its text does. -/
theorem linesOf_shown_iff (h : t ∈ (lex source file).tokens) :
    linesOf t.shown = [t.row] ↔ t.FitsLine := by
  have hline : '\n' ∉ t.heading.toList :=
    fun hmem => absurd (t.isVisible_heading _ hmem) (by decide)
  have hshown : t.shown = t.row ↔ ∀ c ∈ t.row.toList.getLast?, isBlank c = false := by
    rw [← trimEnd_eq_self_iff, Token.shown, ← String.toList_inj, String.toList_ofList]
  have hone : linesOf t.shown = [t.row] ↔
      '\n' ∉ t.row.toList ∧ ∀ c ∈ t.row.toList.getLast?, isBlank c = false := by
    rw [linesOf_eq_singleton_iff, ← hshown, and_comm]
    exact and_congr_left fun heq => by rw [heq]
  by_cases hend : t.kind = .eof
  · have hlexeme := (lexeme_eq_nil_iff h).2 hend
    have hrow : t.row = t.heading := if_pos hend
    rw [hone, hrow]
    exact iff_of_true ⟨hline, t.isBlank_heading⟩ ⟨by simp [hlexeme], by simp [hlexeme]⟩
  · have hlexeme : t.lexeme.toList ≠ [] := mt (lexeme_eq_nil_iff h).1 hend
    have hlast : t.row.toList.getLast? = t.lexeme.toList.getLast? := by
      rw [Token.toList_row hend, List.getLast?_append_of_ne_nil _ (List.cons_ne_nil _ _),
        List.getLast?_cons_of_ne_nil hlexeme]
    have hfeed : '\n' ∉ t.row.toList ↔ '\n' ∉ t.lexeme.toList := by
      simp [Token.toList_row hend, hline]
    rw [hone, hlast, hfeed]
    exact ⟨fun h => ⟨h.1, h.2⟩, fun h => ⟨h.feedless, h.visible⟩⟩

theorem fitsLine_of_mem_tokens (h : t ∈ (lex source file).tokens) (hvalid : t.kind ≠ .invalid)
    (hstring : t.kind = .string → '\n' ∉ t.lexeme.toList) : t.FitsLine := by
  by_cases hend : t.kind = .eof
  · have hlexeme := (lexeme_eq_nil_iff h).2 hend
    exact ⟨by simp [hlexeme], by simp [hlexeme]⟩
  obtain ⟨text, hword⟩ := Lexical.wordAt_of_mem_tokens h hend
  by_cases hkind : t.kind = .string
  · obtain ⟨body, -, -, hlexeme, -⟩ := hword.exists_body hkind
    change t.lexeme.toList = _ at hlexeme
    refine ⟨hstring hkind, ?_⟩
    rw [hlexeme, List.getLast?_concat]
    rintro c ⟨⟩
    decide
  · have hblank := hword.not_isBlank hkind hvalid
    exact ⟨fun hline => absurd (hblank _ hline) (by decide),
      fun c hc => hblank c (List.mem_of_mem_getLast? hc)⟩

namespace Command

theorem tokenLine_eq (h : t ∈ (lex source file).tokens) : tokenLine t = t.shown := by
  by_cases hend : t.kind = .eof
  · have hlexeme : t.lexeme = "" := String.toList_inj.1 ((lexeme_eq_nil_iff h).2 hend)
    have hline : (t.heading ++ " " ++ t.lexeme).toList = t.heading.toList ++ [' '] := by
      simp [hlexeme]
    change String.ofList (trimEnd (t.heading ++ " " ++ t.lexeme).toList) = _
    rw [hline, trimEnd_append_blank, Token.shown, Token.row, if_pos hend]
  · rw [Token.shown, Token.row, if_neg hend]
    rfl

/-- In a source without escape sequences, no row has one. -/
theorem stripEscapes_shown (hsource : stripEscapes source = source)
    (h : t ∈ (lex source file).tokens) : stripEscapes t.shown = t.shown := by
  have hbare : stripFrom 0 source.toList = source.toList := by
    rw [← String.toList_inj, stripEscapes, String.toList_ofList] at hsource
    exact hsource
  have hheading : '\x1b' ∉ t.heading.toList :=
    fun hmem => absurd (t.isVisible_heading _ hmem) (by decide)
  have hrow : stripFrom 0 t.row.toList = t.row.toList := by
    by_cases hend : t.kind = .eof
    · rw [Token.row, if_pos hend, stripFrom_of_not_mem hheading]
    · have hlexeme := stripFrom_of_within hbare (lexeme_within h)
      rw [Token.toList_row hend, stripFrom_append hheading,
        stripFrom_kept (fun heq => absurd heq (by decide)), hlexeme]
  have hshown := stripFrom_of_within hrow (List.rdropWhile_prefix isBlank t.row.toList).isInfix
  rw [stripEscapes, Token.shown, String.toList_ofList]
  exact congrArg String.ofList hshown

/-- Lines that are written one by one. -/
theorem linesOf_join (lines : List String) :
    linesOf (String.join (lines.map (· ++ "\n"))) = lines.flatMap linesOf ++ [""] := by
  induction lines with
  | nil => rfl
  | cons line lines ih =>
    rw [List.map_cons, String.join_cons, linesOf_append, ih, List.flatMap_cons, List.append_assoc]

/-- The tokens of a source without escape sequences, as they are printed. Each is printed as its
row, without the blanks at the end of the row. So the lines are the rows, and one is empty behind
the last line feed, exactly if the text of no token holds a line feed or ends in a blank. All texts
are so but those of some strings, with a line feed, and of some invalid tokens. -/
theorem tokens_lines {read : FileReader} {g : Settings} {o : Options} (h : g.Give read o)
    (stdin : List UInt8) {s : String} (hs : stripEscapes s = s) :
    let tokens := (lex s o.filename).tokens
    let out := (run read stdin (g.arguments ++ Request.tokens.arguments ++ ["-e", s])).out
    linesOf out = tokens.flatMap (fun t => linesOf t.shown) ++ [""] ∧
    (linesOf out = tokens.map Token.row ++ [""] ↔ ∀ t ∈ tokens, t.FitsLine) ∧
    ∀ t ∈ tokens, t.kind ≠ .invalid → (t.kind = .string → '\n' ∉ t.lexeme.toList) →
      t.FitsLine := by
  intro tokens out
  have hline : ∀ t ∈ tokens, echo (tokenLine t) = t.shown ++ "\n" := by
    intro t ht
    rw [tokenLine_eq ht, echo, stripEscapes_shown hs ht]
  have hout : out = String.join ((tokens.map Token.shown).map (· ++ "\n")) := by
    rw [List.map_map]
    change (run read stdin _).out = _
    rw [run_text h]
    exact congrArg String.join (List.map_congr_left hline)
  have hlines : linesOf out = tokens.flatMap (fun t => linesOf t.shown) ++ [""] := by
    rw [hout, linesOf_join, List.flatMap_map]
  refine ⟨hlines, ?_, fun t ht hvalid hstring => fitsLine_of_mem_tokens ht hvalid hstring⟩
  rw [hlines, List.append_left_inj, flatMap_eq_map_iff fun t _ => linesOf_ne_nil t.shown]
  exact forall₂_congr fun t ht => linesOf_shown_iff ht

/-- No token of an assignment is invalid or holds a line feed. -/
theorem tokens_lines_assignment :
    let s := "x = \"a\""
    let read : FileReader := fun _ => .error .missing
    Settings.Give ⟨false, none⟩ read {} ∧ stripEscapes s = s ∧
      linesOf (run read [] ["tokens", "-e", s]).out =
        ["1:1 IDENT x", "1:3 EQUAL =", "1:5 STRING \"a\"", "1:8 EOF", ""] := by
  intro s read
  have hgive : Settings.Give ⟨false, none⟩ read {} := rfl
  have hbare : stripEscapes s = s := by decide +kernel
  have hfits : ∀ t ∈ (lex s "<string>").tokens,
      t.kind ≠ .invalid ∧ (t.kind = .string → '\n' ∉ t.lexeme.toList) := by
    decide +kernel
  obtain ⟨-, hrows, hshort⟩ := tokens_lines hgive [] hbare
  refine ⟨hgive, hbare, ?_⟩
  exact (hrows.2 fun t ht => hshort t ht (hfits t ht).1 (hfits t ht).2).trans (by decide +kernel)

/-- A blank that begins no word is not shown at the end of its row, and a string with a line feed is
shown on two lines. -/
theorem tokens_lines_unfit :
    let read : FileReader := fun _ => .error .missing
    let tokens (s : String) : List Token := (lex s "<string>").tokens
    let out (s : String) : String := (run read [] ["tokens", "-e", s]).out
    (stripEscapes "\u00a0" = "\u00a0" ∧
      linesOf (out "\u00a0") = ["1:1 INVALID", "1:2 EOF", ""] ∧
      (tokens "\u00a0").map Token.row = ["1:1 INVALID \u00a0", "1:2 EOF"]) ∧
    (stripEscapes "\"\n\"" = "\"\n\"" ∧
      linesOf (out "\"\n\"") = ["1:1 STRING \"", "\"", "2:2 EOF", ""] ∧
      (tokens "\"\n\"").map Token.row = ["1:1 STRING \"\n\"", "2:2 EOF"]) := by
  decide +kernel

end Command

end Tokens

end RuleLang
