import RuleLang.Proofs.Json.Printable
import RuleLang.Proofs.Places
import RuleLang.Proofs.Token.Cutting

/-!
Diagnostics on lines of their own. Messages show parts of the source in quotes, where a line feed is
escaped, with one exception: the character behind a backslash that has no meaning there is shown as
it is. So the text of a diagnostic is one line unless it stands on a backslash in front of a line
feed, and then it is two (`report_lines`).
-/
namespace RuleLang

open Grammar

/-! ## Messages -/

section Messages

theorem Text.line_not_mem_hexadecimal (width n : Nat) : '\n' ∉ hexadecimal width n := by
  intro hline
  obtain hzero | hdigit := List.mem_append.1 hline
  · exact absurd (List.eq_of_mem_replicate hzero) (by decide)
  · exact absurd (Json.isVisible_of_mem_toDigits n _ hdigit) (by decide)

/-- A character in quotes is shown without line feeds. -/
theorem Text.line_not_mem_quotedChar {quote : Char} (hquote : quote ≠ '\n') (c : Char) :
    '\n' ∉ quotedChar quote c := by
  unfold quotedChar
  split
  · rename_i hc
    obtain rfl | rfl := hc
    · simp [hquote.symm]
    · decide
  · split
    · decide
    · rename_i hline
      split
      · decide
      · split
        · decide
        · split
          · simpa using Ne.symm hline
          · split
            · simp [line_not_mem_hexadecimal]
            · split <;> simp [line_not_mem_hexadecimal]

/-- A text in quotes is shown on one line. -/
theorem Text.line_not_mem_quoted (s : String) : '\n' ∉ (quoted s).toList := by
  have hquote : quoteFor s.toList ≠ '\n' := by
    rw [quoteFor]
    split <;> decide
  rw [quoted, String.toList_ofList, List.cons_append, List.mem_cons, List.mem_append,
    List.mem_flatMap, List.mem_singleton]
  rintro (hline | ⟨c, -, hline⟩ | hline)
  · exact hquote hline.symm
  · exact line_not_mem_quotedChar hquote c hline
  · exact hquote hline.symm

theorem line_not_mem_of_visible {cs : List Char} (h : ∀ c ∈ cs, Json.IsVisible c) : '\n' ∉ cs :=
  fun hline => absurd (h _ hline) (by decide)

theorem line_not_mem_append {s t : String} (hs : '\n' ∉ s.toList) (ht : '\n' ∉ t.toList) :
    '\n' ∉ (s ++ t).toList := by
  rw [String.toList_append, List.mem_append]
  exact not_or.2 ⟨hs, ht⟩

/-- The message of a lexical fault is one line, unless it shows a line feed behind a backslash. -/
theorem LexicalFault.line_not_mem_message {f : LexicalFault} (h : f ≠ .unknownEscape '\n') :
    '\n' ∉ f.message.toList := by
  cases f with
  | unknownEscape c =>
    have hc : '\n' ∉ (String.singleton c).toList := by
      rw [String.toList_singleton, List.mem_singleton]
      intro hline
      exact h (by rw [hline])
    exact line_not_mem_append (line_not_mem_append (by decide) hc) (by decide)
  | unexpectedCharacter c => exact line_not_mem_append (by decide) (Text.line_not_mem_quoted _)
  | malformedNumber lexeme =>
    exact line_not_mem_append (line_not_mem_append (by decide) (Text.line_not_mem_quoted _))
      (by decide)
  | unterminatedString => decide
  | numberTooLarge => decide

theorem LexicalFault.count_message_line :
    (unknownEscape '\n').message.toList.count '\n' = 1 := by
  decide

theorem line_not_mem_describe (t : Token) : '\n' ∉ (describe t).toList := by
  have hlabel : '\n' ∉ t.kind.label.toList := by cases t.kind <;> decide
  rw [describe]
  split
  · decide
  · exact line_not_mem_append (line_not_mem_append hlabel (by decide)) (Text.line_not_mem_quoted _)

/-- What is said of a fault is said on one line. -/
theorem Grammar.Fault.line_not_mem_message {f : Fault} {limit : Number} {d : Diagnostic}
    (h : f.diagnostic? limit = some d) : '\n' ∉ d.message.toList := by
  cases f with
  | unexpected error t =>
    simp only [Fault.diagnostic?, Option.ite_none_left_eq_some, Option.some.injEq] at h
    obtain ⟨-, rfl⟩ := h
    have herror : '\n' ∉ error.message.toList := by cases error <;> decide
    exact line_not_mem_append
      (line_not_mem_append (line_not_mem_append herror (by decide)) (line_not_mem_describe t))
      (by decide)
  | tooDeep t =>
    cases h
    exact line_not_mem_append (by decide)
      (line_not_mem_of_visible (Json.isVisible_of_mem_number Json.isVisibleStyle_compact limit))
  | unmeasured error t => cases h

end Messages

/-! ## Places -/

/-- The characters of a lexeme that a flaw is about. -/
def Flaw.part (lexeme : List Char) (f : Flaw) : List Char := (lexeme.drop f.skip).take f.width

/-- A flaw is about the escape that it names, or about all of the lexeme. -/
def Flaw.Names (lexeme : List Char) (f : Flaw) : Prop :=
  match f.fault with
  | .unknownEscape c => f.part lexeme = ['\\', c]
  | _ => f.part lexeme = lexeme

theorem StringPiece.names_flaws (ps : List StringPiece) (front tail : List Char) :
    ∀ f ∈ flaws front.length ps, f.Names (front ++ (ps.flatMap written ++ tail)) := by
  induction ps generalizing front with
  | nil => exact List.forall_mem_nil _
  | cons p ps ih =>
    cases p with
    | raw c =>
      have hnext := ih (front ++ [c])
      rw [List.length_append, List.append_assoc] at hnext
      exact hnext
    | escaped c =>
      have hnext := ih (front ++ ['\\', c])
      rw [List.length_append, List.append_assoc] at hnext
      rw [flaws]
      split
      · exact hnext
      · refine List.forall_mem_cons.2 ⟨?_, hnext⟩
        simp [Flaw.Names, Flaw.part, written]

theorem Word.names_invalid (lexeme : List Char) {fault : LexicalFault}
    (h : ∀ c, fault ≠ .unknownEscape c) : ∀ f ∈ (invalid lexeme fault).flaws, f.Names lexeme := by
  refine List.forall_mem_singleton.2 ?_
  cases fault with
  | unknownEscape c => exact absurd rfl (h c)
  | _ => simp [Flaw.Names, Flaw.part]

theorem Word.names_readString (body : List Char) :
    ∀ f ∈ (readString body).1.flaws, f.Names (readString body).1.lexeme := by
  have hwritten := StringPiece.written_readMany body
  unfold readString
  split
  · rename_i ps rest hread
    exact StringPiece.names_flaws ps ['"'] ['"']
  · rename_i ps tail hopen hread
    rw [hread] at hwritten
    rw [List.forall_mem_append]
    constructor
    · rw [← hwritten]
      exact StringPiece.names_flaws ps ['"'] tail
    · exact names_invalid _ nofun

theorem Word.names_ofDouble (lexeme : List Char) (x : Double) :
    ∀ f ∈ (ofDouble lexeme x).flaws, f.Names lexeme := by
  unfold ofDouble
  split
  · exact List.forall_mem_nil _
  · exact names_invalid _ nofun

theorem Word.names_readNumber (text : List Char) :
    ∀ f ∈ (readNumber text).1.flaws, f.Names (readNumber text).1.lexeme := by
  unfold readNumber
  dsimp only
  split
  · split
    · exact names_invalid _ (by simp)
    · rw [lexeme_ofDecimal]
      exact names_ofDouble _ _
  · rw [lexeme_ofInteger, ofInteger]
    split
    · exact List.forall_mem_nil _
    · exact names_invalid _ (by simp)

/-- Each flaw of a word is about the escape that it names, or about the word as a whole. -/
theorem Word.names_read (c : Char) (rest : List Char) :
    ∀ f ∈ (read c rest).1.flaws, f.Names (read c rest).1.lexeme := by
  unfold read
  split
  · exact names_readString rest
  · split
    · exact names_readNumber _
    · split
      · unfold readName ofName
        split <;> exact List.forall_mem_nil _
      · unfold readMark
        split
        · exact List.forall_mem_nil _
        · split
          · exact List.forall_mem_nil _
          · exact names_invalid _ nofun

/-- A word that begins with a backslash has no other character. -/
theorem Word.lexeme_ne_escape (c : Char) (rest : List Char) (d : Char) :
    (read c rest).1.lexeme ≠ ['\\', d] := by
  intro heq
  have hhead := head?_lexeme_read c rest
  rw [heq] at hhead
  obtain rfl := Option.some.inj hhead
  obtain ⟨w, hlexeme, hread⟩ := readMark_single '\\'
  have hmark : read '\\' rest = (w, rest) := hread rest (by cases rest <;> rfl)
  rw [hmark, hlexeme] at heq
  exact nomatch heq

/-- The diagnostic stands on a backslash in front of a line feed. -/
def Diagnostic.onEscapedLine (source : String) (d : Diagnostic) : Bool :=
  d.span.any fun s => s.slice source = "\\\n"

section Places

variable {source file : String} {p : Position} {w : Word}

/-- The span of a flaw holds the characters that the flaw is about. -/
theorem slice_flawSpan (file : String) (h : (p, w) ∈ placedWords source) {f : Flaw}
    (hf : f ∈ w.flaws) :
    ((w.flawSpan file p f).slice source).toList = f.part w.lexeme := by
  have hwithin : f.skip + f.width ≤ w.lexeme.length :=
    (flawsTold_of_placed h).extent_le (List.mem_map_of_mem hf)
  have hfront := after_take_of_placed h (Nat.le_trans (Nat.le_add_right _ _) hwithin)
  have hbehind := after_take_of_placed h hwithin
  obtain ⟨front, rfl, tail, hsource⟩ := exists_front h
  have hdrop : source.toList.drop front.length = w.lexeme ++ tail := by
    rw [← hsource, List.append_assoc, List.drop_left]
  have hplace : (Position.start.after front).offset = front.length := by
    rw [Position.after_offset]
    exact Nat.zero_add _
  rw [Span.slice, String.toList_ofList, Word.flawSpan, hfront, hbehind]
  simp only [Span.between, Position.ofOffset, hplace, Int.toNat_natCast]
  rw [List.drop_take, ← List.drop_drop, hdrop, List.drop_append_of_le_length (by omega)]
  rw [Flaw.part, List.take_append_of_le_length (by rw [List.length_drop]; omega)]
  congr 1
  omega

theorem slice_toToken (file : String) (h : (p, w) ∈ placedWords source) :
    ((w.toToken file p).span.slice source).toList = w.lexeme := by
  obtain ⟨i, j, -, -, hspan, hlexeme⟩ := stretch_of_mem h
  rw [hspan, Span.slice, String.toList_ofList]
  exact hlexeme.symm.trans String.toList_ofList

/-- What is reported about a word has a line feed if it stands on one behind a backslash. -/
theorem count_message_lexical {d : Diagnostic} (h : d ∈ (lex source file).diagnostics) :
    d.message.toList.count '\n' = if d.onEscapedLine source then 1 else 0 := by
  obtain ⟨⟨p, w⟩, hmem, hd⟩ := List.mem_flatMap.1 h
  obtain ⟨f, hf, rfl⟩ := List.mem_map.1 hd
  obtain ⟨c, rest, hread⟩ := exists_read_of_mem_wordsOf (mem_wordsOf_of_placed hmem)
  have hnames : f.Names w.lexeme := by
    rw [hread] at hf ⊢
    exact Word.names_read c rest f hf
  have hslice := slice_flawSpan file hmem hf
  by_cases hline : f.fault = .unknownEscape '\n'
  · have hpart : f.part w.lexeme = ['\\', '\n'] := by
      rw [Flaw.Names, hline] at hnames
      exact hnames
    have hon : (w.flawSpan file p f).slice source = "\\\n" :=
      String.toList_inj.1 (hslice.trans hpart)
    rw [if_pos (by simp [Diagnostic.onEscapedLine, Diagnostic.error, hon])]
    exact hline ▸ LexicalFault.count_message_line
  · have hpart : f.part w.lexeme ≠ ['\\', '\n'] := by
      intro hpart
      rw [Flaw.Names, hpart] at hnames
      split at hnames
      · rename_i d hfault
        cases hnames
        exact hline hfault
      · exact Word.lexeme_ne_escape c rest '\n' (hread ▸ hnames.symm)
    have hon : (w.flawSpan file p f).slice source ≠ "\\\n" := by
      intro hon
      rw [hon] at hslice
      exact hpart hslice.symm
    rw [if_neg (by simpa [Diagnostic.onEscapedLine, Diagnostic.error] using hon)]
    exact List.count_eq_zero.2 (LexicalFault.line_not_mem_message hline)

/-- No token is a backslash in front of a line feed. -/
theorem slice_ne_escapedLine {t : Token} (h : t ∈ (lex source file).stream.toList) :
    t.span.slice source ≠ "\\\n" := by
  intro hslice
  obtain h | h := List.mem_append.1 h
  · obtain ⟨⟨p, w⟩, hmem, rfl⟩ := List.mem_map.1 h
    obtain ⟨c, rest, hread⟩ := exists_read_of_mem_wordsOf (mem_wordsOf_of_placed hmem)
    have hlexeme := slice_toToken file hmem
    rw [hslice, hread] at hlexeme
    exact Word.lexeme_ne_escape c rest '\n' hlexeme.symm
  · obtain rfl := List.mem_singleton.1 h
    have hempty := congrArg String.toList hslice
    rw [span_last, Span.slice, String.toList_ofList, List.drop_eq_nil_of_le] at hempty
    · cases hempty
    · exact List.length_take_le _ _

end Places

section Texts

variable {source : String} {file : Option String} {o : Options} {d : Diagnostic}

/-- A message has a line feed if the diagnostic stands on one behind a backslash. -/
theorem count_message (h : d ∈ (parse source file o).diagnostics) :
    d.message.toList.count '\n' = if d.onEscapedLine source then 1 else 0 := by
  obtain h | h := List.mem_append.1 h
  · exact count_message_lexical h
  · obtain ⟨f, hf, hd⟩ := List.mem_filterMap.1 h
    have hamong := allStatements_isAmong o endsOnce_lex (fun _ => measured_of_mem_lex) hf
    have hslice := slice_ne_escapedLine (found_mem hamong)
    have hspan := span_of_diagnostic? hd
    rw [if_neg (by simpa [Diagnostic.onEscapedLine, hspan] using hslice)]
    exact List.count_eq_zero.2 (Fault.line_not_mem_message hd)

theorem line_not_mem_location {s : Span} (hfile : '\n' ∉ s.file.toList) :
    '\n' ∉ s.location.toList := by
  have hint (n : Int) : '\n' ∉ (toString n).toList :=
    line_not_mem_of_visible (Json.isVisible_of_mem_int n)
  exact line_not_mem_append (line_not_mem_append (line_not_mem_append (line_not_mem_append hfile
    (by decide)) (hint s.line)) (by decide)) (hint s.column)

theorem span_of_shownSpan {s : Span} (h : d.shownSpan = .ok (some s)) : d.span = some s := by
  rw [Diagnostic.shownSpan] at h
  split at h
  · cases h
  · rename_i s' hspan
    split at h
    · cases h
    · cases h
      exact hspan
    · cases h

/-- The text of a diagnostic has the line feeds of its message. -/
theorem count_text {line : String} (hfile : ∀ s, d.span = some s → '\n' ∉ s.file.toList)
    (h : d.text = .ok line) : line.toList.count '\n' = d.message.toList.count '\n' := by
  have hlabel : '\n' ∉ d.severity.label.toList := by cases d.severity; decide
  have hfront {front : String} (h : '\n' ∉ front.toList) :
      (front ++ d.message).toList.count '\n' = d.message.toList.count '\n' := by
    rw [String.toList_append, List.count_append, List.count_eq_zero.2 h, Nat.zero_add]
  rw [Diagnostic.text] at h
  split at h
  · rename_i s hs
    cases h
    have hlocation := line_not_mem_location (hfile s (span_of_shownSpan hs))
    exact hfront (line_not_mem_append (line_not_mem_append (line_not_mem_append hlocation
      (by decide)) hlabel) (by decide))
  · cases h
    exact hfront (line_not_mem_append hlabel (by decide))
  · cases h

/-- The text of a diagnostic is one line, or two if it stands on an escaped line feed. -/
theorem count_text_parse {line : String} (hfile : '\n' ∉ (o.fileFor file).toList)
    (hd : d ∈ (parse source file o).diagnostics) (h : d.text = .ok line) :
    line.toList.count '\n' = if d.onEscapedLine source then 1 else 0 := by
  obtain ⟨i, j, -, -, hspan⟩ := isLocated_parse hd
  rw [← count_message hd]
  refine count_text (fun s hs => ?_) h
  obtain rfl := Option.some.inj (hspan.symm.trans hs)
  exact hfile

end Texts

/-! ## Lines -/

section Lines

variable {α : Type} [DecidableEq α]

theorem length_splitOn (a : α) (xs : List α) : (xs.splitOn a).length = xs.count a + 1 := by
  induction xs with
  | nil => simp
  | cons x xs ih =>
    rw [List.splitOn_cons_eq_if_modifyHead, List.count_cons]
    split
    · rw [List.length_cons, ih]
    · rw [List.length_modifyHead, ih, Nat.add_zero]

theorem count_intercalate {a : α} {parts : List (List α)} (h : parts ≠ []) :
    ([a].intercalate parts).count a + 1 = (parts.map fun part => part.count a + 1).sum := by
  induction parts with
  | nil => exact absurd rfl h
  | cons part parts ih =>
    cases parts with
    | nil => simp
    | cons next parts =>
      have hnext := ih (List.cons_ne_nil _ _)
      rw [List.intercalate_cons_cons, List.count_append, List.count_append, List.map_cons,
        List.sum_cons, ← hnext, List.count_singleton_self]
      omega

end Lines

/-- The parts of a text in front of, between and behind its line feeds. -/
def linesOf (text : String) : List String := (text.toList.splitOn '\n').map String.ofList

/-- A line feed ends a line. -/
theorem linesOf_append (text rest : String) :
    linesOf (text ++ "\n" ++ rest) = linesOf text ++ linesOf rest := by
  have hsplit : (text ++ "\n" ++ rest).toList = text.toList ++ '\n' :: rest.toList := by simp
  rw [linesOf, hsplit, List.splitOn_append_cons_self, List.map_append]
  rfl

theorem linesOf_ne_nil (text : String) : linesOf text ≠ [] :=
  mt List.map_eq_nil_iff.1 (List.splitOn_ne_nil _ _)

theorem linesOf_eq_singleton_iff {text line : String} :
    linesOf text = [line] ↔ text = line ∧ '\n' ∉ text.toList := by
  have hone (h : '\n' ∉ text.toList) : linesOf text = [text] := by
    rw [linesOf, List.splitOn_eq_singleton h, List.map_singleton, String.ofList_toList]
  constructor
  · intro h
    have hlength := congrArg List.length h
    rw [linesOf, List.length_map, length_splitOn, List.length_singleton] at hlength
    have hfree : '\n' ∉ text.toList := List.count_eq_zero.1 (Nat.succ_inj.1 hlength)
    exact ⟨(List.cons.inj ((hone hfree).symm.trans h)).1, hfree⟩
  · rintro ⟨rfl, hfree⟩
    exact hone hfree

section Reports

variable {ds : List Diagnostic} {texts : List String}

theorem exists_texts_of_report {text : String} (h : report ds = .ok text) :
    ∃ texts, ds.mapM Diagnostic.text = .ok texts ∧
      text.toList = ['\n'].intercalate (texts.map String.toList) := by
  rw [report] at h
  split at h
  · rename_i texts htexts
    cases h
    exact ⟨texts, htexts, String.toList_intercalate⟩
  · exact nomatch h

theorem exists_report (h : ∀ d ∈ ds, ∃ line, d.text = .ok line) : ∃ text, report ds = .ok text := by
  obtain ⟨texts, htexts⟩ := exists_texts h
  exact ⟨_, by rw [report, htexts]⟩

/-- The lines of several texts, of which some have one line feed and the others none. -/
theorem length_linesOf {text : String} {p : Diagnostic → Bool} (hne : ds ≠ [])
    (hjoin : text.toList = ['\n'].intercalate (texts.map String.toList))
    (h : List.Forall₂ (fun d line => line.toList.count '\n' = if p d then 1 else 0) ds texts) :
    (linesOf text).length = ds.length + ds.countP p := by
  have htexts : texts.map String.toList ≠ [] := by
    cases h with
    | nil => exact absurd rfl hne
    | cons => exact List.cons_ne_nil _ _
  rw [linesOf, List.length_map, length_splitOn, hjoin, count_intercalate htexts, List.map_map]
  clear hjoin htexts hne
  induction h with
  | nil => rfl
  | cons hline h ih =>
    rw [List.map_cons, List.sum_cons, ih, Function.comp_apply, hline, List.length_cons,
      List.countP_cons]
    omega

/-- The lines of several texts without line feeds are these texts. -/
theorem linesOf_eq {text : String} (hne : texts ≠ [])
    (hjoin : text.toList = ['\n'].intercalate (texts.map String.toList))
    (h : ∀ line ∈ texts, '\n' ∉ line.toList) : linesOf text = texts := by
  have hsplit : (['\n'].intercalate (texts.map String.toList)).splitOn '\n' =
      texts.map String.toList := by
    apply List.splitOn_intercalate
    · rwa [List.forall_mem_map]
    · exact mt List.map_eq_nil_iff.1 hne
  rw [linesOf, hjoin, hsplit, List.map_map]
  exact (List.map_congr_left fun _ _ => String.ofList_toList).trans (List.map_id texts)

theorem forall_mem_texts {P : String → Prop} (h : List.Forall₂ (fun _ line => P line) ds texts) :
    ∀ line ∈ texts, P line := by
  induction h with
  | nil => exact List.forall_mem_nil _
  | cons hline h ih => exact List.forall_mem_cons.2 ⟨hline, ih⟩

end Reports

/-- The text of a diagnostic is one line, unless the diagnostic stands on a backslash in front of a
line feed, and then it is two. So the lines of a report are the texts of the diagnostics exactly if
none stands there, and otherwise there is one line more for each that does. -/
theorem report_lines (source : String) (file : Option String) (o : Options)
    (hfile : '\n' ∉ (o.fileFor file).toList) :
    let ds := (parse source file o).diagnostics
    (source.length < 0x8000000000000000 → ∃ text, report ds = .ok text) ∧
    (∀ d ∈ ds, ∀ line, d.text = .ok line →
      line.toList.count '\n' = if d.onEscapedLine source then 1 else 0) ∧
    ∀ text, report ds = .ok text → ds ≠ [] →
      (linesOf text).length = ds.length + ds.countP (·.onEscapedLine source) ∧
      (ds.mapM Diagnostic.text = .ok (linesOf text) ↔
        ∀ d ∈ ds, d.onEscapedLine source = false) := by
  intro ds
  refine ⟨fun hlength => ?_, fun d hd line => count_text_parse hfile hd, ?_⟩
  · refine exists_report fun d hd => (isLocated_parse hd).exists_text ?_
    rwa [String.length_toList]
  intro text htext hne
  obtain ⟨texts, htexts, hjoin⟩ := exists_texts_of_report htext
  have htold := forall₂_text htexts
  have hcounts : List.Forall₂ (fun d line => d ∈ ds ∧
      line.toList.count '\n' = if d.onEscapedLine source then 1 else 0) ds texts :=
    ((List.forall₂_and_left ds texts).2 ⟨fun d hd => hd, htold⟩).imp fun d line h =>
      ⟨h.1, count_text_parse hfile h.1 h.2⟩
  have hlength := length_linesOf hne hjoin (hcounts.imp fun _ _ => And.right)
  refine ⟨hlength, ?_⟩
  constructor
  · intro hsame
    have heq : texts = linesOf text := Except.ok.inj (htexts.symm.trans hsame)
    rw [← heq, ← htold.length_eq] at hlength
    have hnone : ds.countP (·.onEscapedLine source) = 0 := Nat.left_eq_add.1 hlength
    simpa using List.countP_eq_zero.1 hnone
  · intro hnone
    have hfree : ∀ line ∈ texts, '\n' ∉ line.toList := by
      apply forall_mem_texts
      refine hcounts.imp fun d line h => List.count_eq_zero.1 ?_
      rw [h.2, if_neg (Bool.not_eq_true _ ▸ hnone d h.1)]
    have htexts_ne : texts ≠ [] := by
      rintro rfl
      exact hne (List.length_eq_zero_iff.1 htold.length_eq)
    rw [htexts, linesOf_eq htexts_ne hjoin hfree]

/-- A sign and an unknown escape are reported on two lines. -/
theorem report_lines_two :
    let ds := (parse "@ \"\\q\"" none {}).diagnostics
    '\n' ∉ "<string>".toList ∧ ds.length = 2 ∧
      ∃ text, report ds = .ok text ∧ ds.mapM Diagnostic.text = .ok (linesOf text) := by
  intro ds
  have hcount : ds.length = 2 := by decide +kernel
  have hnone : ∀ d ∈ ds, d.onEscapedLine "@ \"\\q\"" = false := by decide +kernel
  have hne : ds ≠ [] := by
    intro hnil
    rw [hnil] at hcount
    exact nomatch hcount
  obtain ⟨hreport, -, hlines⟩ := report_lines "@ \"\\q\"" none {} (by decide)
  obtain ⟨text, htext⟩ := hreport (by decide)
  exact ⟨by decide, hcount, text, htext, (hlines text htext hne).2.2 hnone⟩

/-- A line feed behind a backslash is reported once, with a text that has a line feed itself, so
that the report has two lines. -/
theorem report_escaped_line :
    let ds := (parse "\"\\\n\"" none {}).diagnostics
    let text := "<string>:1:2: error: Unknown escape sequence '\\\n' in string literal"
    ds.map Diagnostic.text = [.ok text] ∧ report ds = .ok text ∧ (linesOf text).length = 2 := by
  decide +kernel

end RuleLang
