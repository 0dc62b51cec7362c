import RuleLang.Proofs.Token.Cutting

/-!
Texts put together at a line break. No part of a text but an open string looks beyond the line break
behind it, so the parts of both texts are found again (`ofSource_line`), and those of the second one
stand as they do on their own, only that many characters and lines further on (`placedWords_line`).
-/
namespace RuleLang

/-! ## Shifts -/

/-- The place that many characters and lines further on, in the same column. -/
def Position.shift (chars lines : Nat) (p : Position) : Position :=
  ⟨p.offset + chars, p.line + lines, p.column⟩

def Span.shift (chars lines : Nat) (s : Span) : Span :=
  ⟨s.file, s.start + chars, s.stop + chars, s.line + lines, s.column, s.stopLine + lines,
    s.stopColumn⟩

def Token.shift (chars lines : Nat) (t : Token) : Token :=
  { t with span := t.span.shift chars lines }

def Diagnostic.shift (chars lines : Nat) (d : Diagnostic) : Diagnostic :=
  { d with span := d.span.map (Span.shift chars lines) }

section Shifts

variable (chars lines : Nat)

theorem Position.after_shift (p : Position) (cs : List Char) :
    (p.shift chars lines).after cs = (p.after cs).shift chars lines := by
  induction cs generalizing p with
  | nil => rfl
  | cons c cs ih =>
    have hnext : (p.shift chars lines).next c = (p.next c).shift chars lines := by
      by_cases hc : c = '\n' <;> simp [next, shift, hc] <;> omega
    rw [after_cons, after_cons, hnext, ih]

theorem Span.between_shift (file : String) (p q : Position) :
    between file (p.shift chars lines) (q.shift chars lines) =
      (between file p q).shift chars lines := rfl

theorem Token.endOf_shift (file : String) (p : Position) :
    endOf file (p.shift chars lines) = (endOf file p).shift chars lines := rfl

namespace Word

variable (file : String) (p : Position) (w : Word)

theorem toToken_shift :
    w.toToken file (p.shift chars lines) = (w.toToken file p).shift chars lines := by
  rw [toToken, Position.after_shift, Span.between_shift]
  rfl

theorem flawSpan_shift (f : Flaw) :
    w.flawSpan file (p.shift chars lines) f = (w.flawSpan file p f).shift chars lines := by
  rw [flawSpan, Position.after_shift, Position.after_shift, Span.between_shift]
  rfl

theorem diagnostics_shift : w.diagnostics file (p.shift chars lines) =
    (w.diagnostics file p).map (Diagnostic.shift chars lines) := by
  rw [diagnostics, diagnostics, List.map_map]
  refine List.map_congr_left fun f _ => ?_
  rw [flawSpan_shift]
  rfl

end Word

namespace Chunk

theorem placed_shift (p : Position) (chunks : List Chunk) :
    placed (p.shift chars lines) chunks =
      (placed p chunks).map fun x => (x.1.shift chars lines, x.2) := by
  induction chunks generalizing p with
  | nil => rfl
  | cons chunk chunks ih =>
    cases chunk with
    | gap cs => rw [placed, placed, Position.after_shift, ih]
    | word w => rw [placed, placed, Position.after_shift, ih, List.map_cons]

theorem placed_append (p : Position) (front behind : List Chunk) :
    placed p (front ++ behind) =
      placed p front ++ placed (p.after (front.flatMap text)) behind := by
  induction front generalizing p with
  | nil => rfl
  | cons chunk front ih =>
    rw [List.flatMap_cons, Position.after_append]
    cases chunk with
    | gap cs => exact ih _
    | word w => exact congrArg _ (ih _)

end Chunk

end Shifts

/-- A line further on, everything stands as it does from the beginning. -/
theorem Position.start_after_line (cs : List Char) :
    start.after (cs ++ ['\n']) = start.shift (cs.length + 1) (1 + cs.count '\n') := by
  rw [after_append, start_after]
  simp [next, shift, start, Nat.add_comm]

/-! ## Texts -/

/-- The parts of two texts with a line break between them, where no string of the first one is
open. -/
theorem Chunk.ofSource_line {cs : List Char} (ds : List Char)
    (h : ∀ w ∈ wordsOf cs, ∀ f ∈ w.flaws, f.fault ≠ .unterminatedString) :
    ofSource (cs ++ '\n' :: ds) = ofSource cs ++ .gap ['\n'] :: ofSource ds := by
  fun_induction ofSource cs with
  | case1 =>
    rw [List.nil_append, ofSource_cons]
    rfl
  | case2 c rest ih =>
    rw [wordsOf_read, List.forall_mem_append] at h
    have hopen : ¬Word.IsOpen c rest := by
      intro hopen
      rw [read_of_isOpen hopen] at h
      have hflaw := List.mem_of_getLast? (Word.read_of_isOpen hopen).2
      exact h.1 _ (Option.mem_toList.2 rfl) _ hflaw rfl
    have hagain : read c (rest ++ '\n' :: ds) =
        ((read c rest).1, (read c rest).2 ++ '\n' :: ds) := by
      refine read_again ?_ (beginsAs_line _ ds) fun hisOpen => absurd hisOpen hopen
      rw [← List.append_assoc, read_append, List.cons_append]
    rw [List.cons_append, ofSource_cons, hagain, ih h.2, List.cons_append]

section Sources

variable {a : String} (b : String)
  (h : ∀ w ∈ wordsOf a.toList, ∀ f ∈ w.flaws, f.fault ≠ .unterminatedString)
include h

theorem placedWords_line : placedWords (a ++ "\n" ++ b) = placedWords a ++
    (placedWords b).map fun x => (x.1.shift (a.length + 1) (1 + a.toList.count '\n'), x.2) := by
  have htext : (a ++ "\n" ++ b).toList = a.toList ++ '\n' :: b.toList := by simp
  rw [placedWords, htext, Chunk.ofSource_line b.toList h, Chunk.placed_append,
    Chunk.texts_ofSource, Chunk.placed, ← Position.after_append, Position.start_after_line,
    Chunk.placed_shift, String.length_toList]
  rfl

theorem words_line {file : String} : (lex (a ++ "\n" ++ b) file).stream.ahead =
    (lex a file).stream.ahead ++ (lex b file).stream.ahead.map
      (Token.shift (a.length + 1) (1 + a.toList.count '\n')) := by
  rw [ahead_lex, placedWords_line b h, List.map_append, List.map_map, ahead_lex, ahead_lex,
    List.map_map]
  refine congrArg _ (List.map_congr_left fun x _ => ?_)
  exact Word.toToken_shift _ _ file x.1 x.2

end Sources

theorem last_line (a b file : String) : (lex (a ++ "\n" ++ b) file).stream.last =
    (lex b file).stream.last.shift (a.length + 1) (1 + a.toList.count '\n') := by
  have hlast (source : String) :
      (lex source file).stream.last = .endOf file (Position.start.after source.toList) := rfl
  have htext : (a ++ "\n" ++ b).toList = (a.toList ++ ['\n']) ++ b.toList := by simp
  rw [hlast, hlast, htext, Position.after_append, Position.start_after_line, Position.after_shift,
    Token.endOf_shift, String.length_toList]

/-- No word has a string left open if nothing of that kind is reported. -/
theorem closed_of_diagnostics {source file : String}
    (h : ∀ d ∈ (lex source file).diagnostics, d.message ≠ LexicalFault.unterminatedString.message) :
    ∀ w ∈ wordsOf source.toList, ∀ f ∈ w.flaws, f.fault ≠ .unterminatedString := by
  intro w hw f hf hfault
  rw [wordsOf, ← Chunk.snd_placed .start] at hw
  obtain ⟨⟨p, w⟩, hmem, rfl⟩ := List.mem_map.1 hw
  refine h _ (List.mem_flatMap.2 ⟨(p, w), hmem, List.mem_map_of_mem hf⟩) ?_
  exact congrArg LexicalFault.message hfault

/-- Lexing takes texts apart at line breaks. Where no string of the first text is left open, the
tokens of two texts with a line break between them are those of the first one without its end mark
and those of the second one, which stand as many characters and lines further on as the first one
and the line break have. The same holds of what there is to report. -/
theorem lex_line_break (a b file : String)
    (h : ∀ d ∈ (lex a file).diagnostics, d.message ≠ LexicalFault.unterminatedString.message) :
    let chars := a.length + 1
    let lines := 1 + a.toList.count '\n'
    (lex (a ++ "\n" ++ b) file).tokens =
      (lex a file).tokens.dropLast ++ (lex b file).tokens.map (Token.shift chars lines) ∧
    (lex (a ++ "\n" ++ b) file).diagnostics =
      (lex a file).diagnostics ++ (lex b file).diagnostics.map (Diagnostic.shift chars lines) := by
  intro chars lines
  have hclosed := closed_of_diagnostics h
  constructor
  · simp only [Lexed.tokens, TokenStream.toList, List.dropLast_concat, List.map_append,
      List.map_singleton, words_line b hclosed, last_line, List.append_assoc]
    rfl
  · rw [diagnostics_lex_placed, placedWords_line b hclosed, List.flatMap_append, List.flatMap_map,
      diagnostics_lex_placed, diagnostics_lex_placed, List.map_flatMap]
    simp only [Word.diagnostics_shift]
    rfl

/-- A slash in front of the line break and one behind it do not begin a comment. -/
theorem lex_line_break_slashes :
    (∀ d ∈ (lex "\"p\nq\" /" "f").diagnostics,
      d.message ≠ LexicalFault.unterminatedString.message) ∧
    (lex "\"p\nq\" /\n/ 2." "f").tokens = (lex "\"p\nq\" /" "f").tokens.dropLast ++
      (lex "/ 2." "f").tokens.map (Token.shift 8 2) ∧
    (lex "\"p\nq\" /\n/ 2." "f").diagnostics = (lex "\"p\nq\" /" "f").diagnostics ++
      (lex "/ 2." "f").diagnostics.map (Diagnostic.shift 8 2) := by
  have hclosed : ∀ d ∈ (lex "\"p\nq\" /" "f").diagnostics,
      d.message ≠ LexicalFault.unterminatedString.message := by decide +kernel
  exact ⟨hclosed, lex_line_break "\"p\nq\" /" "/ 2." "f" hclosed⟩

end RuleLang
