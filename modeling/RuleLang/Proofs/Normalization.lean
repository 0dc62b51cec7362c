import RuleLang.Proofs.Grammar.Alike
import RuleLang.Proofs.Token.Spacing

/-!
Layout carries no meaning. A source text with single blanks in the place of all gaps between its
words has the same words with the same faults, so it is read as the same program, and the same is
said about it (`parse_spaced`): only the places change.
-/
namespace RuleLang

open Grammar

/-- The lexemes of the tokens but the end mark, with a blank between each two. -/
def Lexed.spaced (l : Lexed) : String := " ".intercalate (l.stream.ahead.map Token.lexeme)

/-- A token apart from its place. -/
def Token.content (t : Token) : Token.Kind × String × Scalar := (t.kind, t.lexeme, t.value)

/-- The content of the token that is a word. -/
def Word.content (w : Word) : Token.Kind × String × Scalar :=
  (w.kind, String.ofList w.lexeme, w.value)

@[simp] theorem Word.content_flawless (w : Word) : w.flawless.content = w.content := rfl

@[simp] theorem Token.content_word (t : Token) : t.word.content = t.content := by
  simp only [Word.content, Token.content, Token.word, String.ofList_toList]

section Lexing

variable (source file : String)

theorem toList_spaced :
    (lex source file).spaced.toList = RuleLang.spaced (wordsOf source.toList) := by
  have hlexemes : (lex source file).stream.ahead.map (String.toList ∘ Token.lexeme) =
      (wordsOf source.toList).map Word.lexeme := by
    have hwords := congrArg (List.map Word.lexeme) (word_lex source file)
    rwa [List.map_map, List.map_map] at hwords
  rw [Lexed.spaced, String.toList_intercalate, List.map_map, hlexemes]
  rfl

/-- A text has the words of its source. -/
theorem wordsOf_toList_spaced :
    wordsOf (lex source file).spaced.toList = wordsOf source.toList := by
  rw [toList_spaced, wordsOf_spaced]

/-- The tokens of a source text are its words and the end mark. -/
theorem contents_lex :
    (lex source file).tokens.map Token.content =
      (wordsOf source.toList).map Word.content ++ [(.eof, "", .null)] := by
  have hwords := congrArg (List.map Word.content) (word_lex source file)
  rw [List.map_map, List.map_map] at hwords
  have hahead : (lex source file).stream.ahead.map Token.content =
      (wordsOf source.toList).map Word.content := by
    simpa only [Function.comp_def, Token.content_word, Word.content_flawless] using hwords
  rw [Lexed.tokens, TokenStream.toList, List.map_append, hahead]
  rfl

/-- What is reported about a source text depends on its words, but for the places. -/
theorem wording_lex :
    (lex source file).diagnostics.map Diagnostic.wording =
      (wordsOf source.toList).flatMap fun w => w.flaws.map fun f => (f.fault.message, none) := by
  obtain ⟨placed, hwords, -, hdiagnostics⟩ := exists_placed source file
  rw [hdiagnostics, ← hwords, List.map_flatMap, List.flatMap_map]
  refine List.flatMap_congr fun ⟨p, w⟩ _ => ?_
  simp only [Word.diagnostics, List.map_map]
  rfl

/-- Texts of the same words give the same tokens, but for their places. -/
theorem stream_alike {text : String} (file' : String)
    (h : wordsOf text.toList = wordsOf source.toList) :
    (lex text file').stream.Alike .nothing (lex source file).stream where
  ahead := by
    refine Token.forall₂_alike ?_ (fun _ => isEmpty_of_mem_lex) (fun _ => isEmpty_of_mem_lex)
    rw [word_lex, word_lex, h]
  last := ⟨rfl, rfl, nofun, nofun⟩

end Lexing

/-- A source text and the text of its lexemes with single blanks between them: both have the same
tokens and the same faults, the second has itself as such a text, and under any options both are
read as programs of one shape with the same things to report. -/
theorem parse_spaced (source file : String) (name name' : Option String) (o : Options) :
    let text := (lex source file).spaced
    (lex text file).tokens.map Token.content = (lex source file).tokens.map Token.content ∧
    (lex text file).diagnostics.map Diagnostic.message =
      (lex source file).diagnostics.map Diagnostic.message ∧
    (lex text file).spaced = text ∧
    (parse text name' o).program.sameShape (parse source name o).program = true ∧
    (parse text name' o).diagnostics.map Diagnostic.wording =
      (parse source name o).diagnostics.map Diagnostic.wording := by
  intro text
  have hwords : wordsOf text.toList = wordsOf source.toList := wordsOf_toList_spaced source file
  have hwording (file' file'' : String) : (lex text file').diagnostics.map Diagnostic.wording =
      (lex source file'').diagnostics.map Diagnostic.wording := by
    rw [wording_lex, wording_lex, hwords]
  obtain ⟨hnodes, hfaults⟩ := allStatements_alike o.levels
    (stream_alike source (o.fileFor name) (o.fileFor name') hwords)
  refine ⟨?_, ?_, ?_, ?_, ?_⟩
  · rw [contents_lex, contents_lex, hwords]
  · have hmessages := congrArg (List.map Prod.fst) (hwording file file)
    rwa [List.map_map, List.map_map] at hmessages
  · rw [← String.toList_inj, toList_spaced, hwords, toList_spaced]
  · rw [Node.sameShape_iff]
    simp only [parse, Node.bare, Node.bares_eq_map]
    rw [show List.map _ _ = List.map _ _ from hnodes]
  · simp only [Parsed.diagnostics, List.map_append]
    exact congr (congrArg _ (hwording _ _)) (wording_diagnose o hfaults)

end RuleLang
