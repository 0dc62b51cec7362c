import RuleLang.Command.Run
import RuleLang.Proofs.Node.Records
import RuleLang.Proofs.Normalization
import RuleLang.Proofs.Token.Tiling

/-!
The name of the file. A source text is read in the same way whatever the name of its file is: as
tokens of the same lines, as a tree of the same text and the same JSON value, and with the same to
report. The name shows only in front of diagnostics.
-/
namespace RuleLang

open Grammar

section Lexing

variable (source file file' : String)

/-- The tokens of a text are the same but for the file they are in. -/
theorem stream_renamed : (lex source file).stream.Alike .place (lex source file').stream where
  ahead := by
    change List.Forall₂ (Token.Alike .place)
      ((placedWords source).map fun x => x.2.toToken file x.1)
      ((placedWords source).map fun x => x.2.toToken file' x.1)
    rw [List.forall₂_map_left_iff, List.forall₂_map_right_iff, List.forall₂_same]
    intro x hx
    exact ⟨by rw [Word.word_toToken, Word.word_toToken], rfl,
      isEmpty_of_mem_lex (List.mem_map_of_mem hx), isEmpty_of_mem_lex (List.mem_map_of_mem hx)⟩
  last := ⟨rfl, rfl, nofun, nofun⟩

theorem tokenLines_renamed : (lex source file).tokens.map Command.tokenLine =
    (lex source file').tokens.map Command.tokenLine := by
  have hlines (name : String) : (lex source name).tokens.map Command.tokenLine =
      ((placedWords source).map fun x => Command.tokenLine (x.2.toToken "" x.1)) ++
        [Command.tokenLine (lex source "").stream.last] := by
    change (((placedWords source).map fun x => x.2.toToken name x.1) ++ _).map _ = _
    rw [List.map_append, List.map_map]
    rfl
  rw [hlines, hlines]

theorem diagnostics_lex_renamed :
    (lex source file).diagnostics = [] ↔ (lex source file').diagnostics = [] := by
  have hwording := (wording_lex source file).trans (wording_lex source file').symm
  rw [← List.map_eq_nil_iff, hwording, List.map_eq_nil_iff]

end Lexing

section Parsing

variable (source : String) (file file' : Option String) (o : Options)

theorem program_renamed :
    Shaped .place (parse source file o).program (parse source file' o).program := by
  have hstream := stream_renamed source (o.fileFor file) (o.fileFor file')
  have hnodes := (allStatements_uniform o.levels hstream).1
  simp only [Shaped, parse, Node.mapSpan, Node.mapSpans_eq_map,
    show List.map _ _ = List.map _ _ from hnodes]
  rfl

theorem record_renamed (spans : Bool) :
    (parse source file o).program.record spans = (parse source file' o).program.record spans := by
  have hplace : spans = true → ∀ s : Span, (Span.Aspect.place.of s).record = s.record :=
    fun _ => Span.Aspect.record_place
  rw [← Node.record_mapSpan spans hplace, program_renamed source file file' o,
    Node.record_mapSpan spans hplace]

theorem programText_renamed :
    (parse source file o).program.programText = (parse source file' o).program.programText := by
  rw [← Node.programText_mapSpan, program_renamed source file file' o, Node.programText_mapSpan]

theorem wording_renamed : (parse source file o).diagnostics.map Diagnostic.wording =
    (parse source file' o).diagnostics.map Diagnostic.wording := by
  have hstream := stream_renamed source (o.fileFor file) (o.fileFor file')
  have hfaults := (allStatements_uniform o.levels hstream).2
  simp only [Parsed.diagnostics, List.map_append]
  exact congr (congrArg _ ((wording_lex source _).trans (wording_lex source _).symm))
    (wording_diagnose o hfaults)

theorem diagnostics_parse_renamed :
    (parse source file o).diagnostics = [] ↔ (parse source file' o).diagnostics = [] := by
  rw [← List.map_eq_nil_iff, wording_renamed source file file' o, List.map_eq_nil_iff]

end Parsing

end RuleLang
