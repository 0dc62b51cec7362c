import RuleLang.Proofs.Agreement
import RuleLang.Proofs.Commands
import RuleLang.Proofs.Grammar.Conveyed
import RuleLang.Proofs.RoundTrip

/-!
Programs that are printed to a file. Printing leaves out the escape sequences of terminals, and
reading makes line ends alike, so that the program is read with what is left of its text literals
(`parse_conveyed`). The command line shows the same JSON text for it only if no literal lost
anything (`source_conveyed`).
-/
namespace RuleLang

open Grammar

section Printed

variable {n : Node} {text : String} (hprinted : Printed text.toList n.programWords)
include hprinted

theorem wordsOf_printed : wordsOf text.toList = n.programWords := by
  simpa using hprinted.spells [] ends_nil

/-- The tokens of a program that is read from a file are those of the program as they are read. -/
theorem forall₂_conveyed_lex (file file' : String) :
    (lex (String.ofList (Text.conveyed text.toList)) file').diagnostics = [] ∧
      List.Forall₂ Token.Conveyed
        (lex (String.ofList (Text.conveyed text.toList)) file').stream.ahead
        (lex text file).stream.ahead := by
  have hwords : wordsOf (String.ofList (Text.conveyed text.toList)).toList =
      n.programWords.map Word.conveyed := by
    rw [String.toList_ofList, hprinted.wordsOf_conveyed]
  have hflaws : ∀ w ∈ wordsOf (String.ofList (Text.conveyed text.toList)).toList,
      w.flaws = [] := by
    rw [hwords, List.forall_mem_map]
    exact n.flaws_programWords
  refine ⟨diagnostics_lex _ file' hflaws, Token.forall₂_conveyed ?_ fun _ => wellMade_of_mem_lex⟩
  have htokens := (word_lex_written (wordsOf_printed hprinted) file).1
  rw [word_lex_of_flawless _ file' hflaws, hwords, ← htokens, List.map_map]
  rfl

/-- A program that can be read again is read from a file as the program with its literals as they
are read. -/
theorem parse_conveyed (file file' : Option String) (o : Options)
    (hnone : (parse text file o).diagnostics = []) :
    let again := parse (String.ofList (Text.conveyed text.toList)) file' o
    again.diagnostics = [] ∧
      again.program.bare = (parse text file o).program.conveyed.bare := by
  intro again
  obtain ⟨hlexical, htokens⟩ := forall₂_conveyed_lex hprinted (o.fileFor file) (o.fileFor file')
  have hfaults := ((diagnostics_parse_eq_nil_iff text file o).1 hnone).2
  rw [allStatements, ← htokens.length_eq] at hfaults
  obtain ⟨hagain, hnodes⟩ := statements_conveyed htokens (fun _ => isEmpty_of_mem_lex) hfaults
  refine ⟨(diagnostics_parse_eq_nil_iff _ file' o).2 ⟨hlexical, hagain⟩, ?_⟩
  have hall : (allStatements o.levels (lex text (o.fileFor file)).stream).nodes = _ :=
    congrArg (fun count => (statements o.levels count _).nodes) htokens.length_eq.symm
  simp only [again, parse, Node.bare, Node.conveyed, Node.bares_eq_map, Node.conveyeds_eq_map,
    List.map_map, Function.comp_def, hall]
  exact congrArg (Node.program · _) hnodes

end Printed

/-- What is shown of a program that is read from a file without spans: the program, but with its
strings as they are read. -/
theorem record_conveyed {n : Node} {value : Json} (hvalue : n.Recorded false value)
    {text : String} (hprinted : Printed text.toList n.programWords) (hn : n.IsProgram)
    (file file' : Option String) (o : Options) (hnone : (parse text file o).diagnostics = []) :
    (parse (String.ofList (Text.conveyed text.toList)) file' o).program.record false =
      .ok (value.mapString Text.conveyedValue) := by
  have hshape := sameShape_written hn (wordsOf_printed hprinted) file o hnone
  obtain ⟨value', hvalue'⟩ := (isProgram_parse text file o).exists_recorded false
  obtain rfl : value' = value := by
    have hsame := Node.record_congr ((Node.sameShape_iff _ _).1 hshape)
    rw [hvalue'.record, hvalue.record] at hsame
    exact Except.ok.inj hsame
  exact (Node.record_congr (parse_conveyed hprinted file file' o hnone).2).trans hvalue'.conveyed

namespace Command

section Runs

variable {g : Settings} {read : FileReader} {o : Options} (h : g.Give read o)
  (stdin : List UInt8) {s : String}
include h

theorem out_json_text {value : Json} (hvalue : (parse s none o).program.record false = .ok value) :
    (run read stdin (g.arguments ++ (Request.parse (.json false)).arguments ++ ["-e", s])).out =
      value.text (some 2) ++ "\n" := by
  obtain ⟨value', hvalue', -, hout⟩ := Request.out_json g.verbose o ⟨s, o.filename⟩ false
    Bool.noConfusion
  rw [parse_filename] at hvalue'
  obtain rfl : value' = value := Except.ok.inj (hvalue'.symm.trans hvalue)
  exact (congrArg Outcome.out (run_text h _ s)).trans hout

theorem out_source_text {text : String}
    (htext : (parse s none o).program.programText = .ok text) :
    (run read stdin (g.arguments ++ (Request.parse .source).arguments ++ ["-e", s])).out =
      Text.stripEscapes text := by
  obtain ⟨text', htext', hout⟩ := Request.out_source g.verbose o ⟨s, o.filename⟩
  rw [parse_filename] at htext'
  obtain rfl : text' = text := Except.ok.inj (htext'.symm.trans htext)
  exact (congrArg Outcome.out (run_text h _ s)).trans hout

/-- What is printed for a file as JSON without spans, and how that ends. -/
theorem outcome_json_file {operand : List String} {path name : String} {value : Json}
    (hoperand : IsOperand path operand)
    (hopen : openFile read stdin path = .ok (.bytes (Text.bytesOf s) name))
    (hvalue : (parse (String.ofList (Text.unifyNewlines s.toList)) (some name) o).program.record
      false = .ok value) :
    let outcome :=
      run read stdin (g.arguments ++ (Request.parse (.json false)).arguments ++ operand)
    outcome.crash = none ∧ outcome.out = value.text (some 2) ++ "\n" ∧
      outcome.code = reportCode
        (parse (String.ofList (Text.unifyNewlines s.toList)) (some name) o).diagnostics := by
  intro outcome
  have hrun : outcome = _ := run_bytes h (.parse (.json false)) hoperand hopen
  obtain ⟨value', hvalue', -, hout⟩ := Request.out_json g.verbose o
    ⟨String.ofList (Text.unifyNewlines s.toList), name⟩ false Bool.noConfusion
  obtain rfl : value' = value := Except.ok.inj (hvalue'.symm.trans hvalue)
  rw [hrun]
  exact ⟨rfl, hout, rfl⟩

end Runs

/-- The text of any program, printed under settings that give some options, and read again from a
file that holds what was printed. If the text itself is read without anything to report, the file
is; its JSON text is that of the program, but with its strings as they are read. So the program
comes back exactly if its text literals hold neither carriage returns nor escape sequences. -/
theorem source_conveyed (read read' : FileReader) (stdin stdin' : List UInt8) (g : Settings)
    (o : Options) (h : g.Give read o) (h' : g.Give read' o) (s : String) :
    let outcome (format : TreeFormat) : Outcome :=
      run read stdin (g.arguments ++ (Request.parse format).arguments ++ ["-e", s])
    let program := (parse s none o).program
    ∃ text value, program.programText = .ok text ∧ program.record false = .ok value ∧
      ((parse text none o).diagnostics = [] → ∀ path operand name, IsOperand path operand →
        openFile read' stdin' path = .ok (.bytes (Text.bytesOf (outcome .source).out) name) →
        let outcome' :=
          run read' stdin' (g.arguments ++ (Request.parse (.json false)).arguments ++ operand)
        outcome'.crash = none ∧ outcome'.code = 0 ∧
          outcome'.out = (value.mapString Text.conveyedValue).text (some 2) ++ "\n" ∧
          (outcome'.out = (outcome (.json false)).out ↔ program.Intact)) := by
  intro outcome program
  have hprogram : program.IsProgram := isProgram_parse s none o
  obtain ⟨text, htext, hprinted⟩ := Node.exists_printed hprogram
  obtain ⟨value, hvalue⟩ := hprogram.exists_recorded false
  refine ⟨text, value, htext, hvalue.record, fun hnone path operand name hoperand hopen => ?_⟩
  intro outcome'
  have hout : (outcome .source).out = Text.stripEscapes text := out_source_text h stdin htext
  have hshown : (outcome (.json false)).out = value.text (some 2) ++ "\n" :=
    out_json_text h stdin hvalue.record
  -- what is read from the file is the text as it is conveyed
  have hread : Text.unifyNewlines (Text.stripEscapes text).toList = Text.conveyed text.toList := by
    rw [Text.stripEscapes, String.toList_ofList, Text.conveyed]
  obtain ⟨hagain, -⟩ := parse_conveyed hprinted none (some name) o hnone
  have hconveyed := record_conveyed hvalue hprinted hprogram none (some name) o hnone
  rw [hout] at hopen
  rw [← hread] at hagain hconveyed
  obtain ⟨hcrash, hshown', hcode⟩ := outcome_json_file h' stdin' hoperand hopen hconveyed
  refine ⟨hcrash, hcode.trans (congrArg reportCode hagain), hshown', ?_⟩
  rw [hshown, hshown', ← hvalue.intact, String.append_left_inj]
  exact ⟨Json.mapString_eq_self Json.lightens_conveyedValue _, fun h => by rw [h]⟩

/-- Files with a printed program: one with an ordinary text literal, and one whose literal holds a
carriage return. -/
def desk : FileReader := fun path =>
  if path = "plain" then .ok (Text.bytesOf "\"a b\";\n")
  else if path = "returned" then .ok (Text.bytesOf "\"a\rb\";\n")
  else .error .missing

/-- The JSON value of a program that is one text literal. -/
def literalRecord (t : String) : Json :=
  .object [("type", .string "Program"), ("statements", .array [.object
    [("type", .string "ExpressionStatement"), ("expression", .object
      [("type", .string "Literal"), ("kind", .string "string"), ("value", .string t)])]])]

theorem record_literal {n : Node} {t : String} (h : n.sameShape (.program [.expressionStatement
    (.literal (.text t) Node.noSpan) Node.noSpan] Node.noSpan) = true) :
    n.record false = .ok (literalRecord t) :=
  (Node.record_congr ((Node.sameShape_iff _ _).1 h)).trans rfl

theorem intact_plain : (parse "\"a b\";" none {}).program.Intact := by
  obtain ⟨value, hvalue⟩ := (isProgram_parse "\"a b\";" none {}).exists_recorded false
  obtain rfl : value = literalRecord "a b" :=
    Except.ok.inj (hvalue.record.symm.trans (record_literal (by decide +kernel)))
  exact hvalue.intact.1 rfl

/-- An ordinary literal comes back from the file. -/
theorem source_conveyed_plain :
    (run desk [] ["parse", "--no-spans", "plain"]).code = 0 ∧
      (run desk [] ["parse", "--no-spans", "plain"]).out =
        (run desk [] ["parse", "--no-spans", "-e", "\"a b\";"]).out := by
  obtain ⟨text, value, htext, -, hconveyed⟩ :=
    source_conveyed desk desk [] [] ⟨false, none⟩ {} rfl rfl "\"a b\";"
  have hprinted : (parse "\"a b\";" none {}).program.programText = .ok "\"a b\";\n" := by
    decide +kernel
  obtain rfl : text = "\"a b\";\n" := Except.ok.inj (htext.symm.trans hprinted)
  have hsource : (run desk [] ["parse", "--format", "source", "-e", "\"a b\";"]).out =
      "\"a b\";\n" := by
    decide +kernel
  have hopen : openFile desk [] "plain" = .ok (.bytes (Text.bytesOf
      (run desk [] ["parse", "--format", "source", "-e", "\"a b\";"]).out) "plain") := by
    rw [hsource]
    rfl
  obtain ⟨-, hcode, -, hout⟩ :=
    hconveyed (by decide +kernel) "plain" ["plain"] "plain" (.plain (by decide)) hopen
  exact ⟨hcode, hout.2 intact_plain⟩

/-- A carriage return in a literal is read from the file as a line feed. -/
theorem source_conveyed_returned :
    let first := parse "\"a\rb\";" none {}
    let again := parse "\"a\rb\";\n" none {}
    first.diagnostics = [] ∧ first.program.programText = .ok "\"a\rb\";\n" ∧
      again.diagnostics = [] ∧ again.program.sameShape first.program = true ∧
      desk "returned" =
        .ok (Text.bytesOf (run desk [] ["parse", "--format", "source", "-e", "\"a\rb\";"]).out) ∧
      (run desk [] ["parse", "--no-spans", "returned"]).out ≠
        (run desk [] ["parse", "--no-spans", "-e", "\"a\rb\";"]).out := by
  refine ⟨?_, ?_, ?_, ?_, ?_, ?_⟩
  · decide +kernel
  · decide +kernel
  · decide +kernel
  · decide +kernel
  · have hsource : (run desk [] ["parse", "--format", "source", "-e", "\"a\rb\";"]).out =
        "\"a\rb\";\n" := by
      decide +kernel
    rw [hsource]
    rfl
  · have hgive : Settings.Give ⟨false, none⟩ desk {} := rfl
    have hopen : openFile desk [] "returned" =
        .ok (.bytes (Text.bytesOf "\"a\rb\";\n") "returned") := rfl
    have hoperand : IsOperand "returned" ["returned"] := .plain (by decide)
    have hvalue : (parse "\"a\rb\";" none {}).program.record false =
        .ok (literalRecord "a\rb") :=
      record_literal (by decide +kernel)
    have hvalue' : (parse (String.ofList (Text.unifyNewlines "\"a\rb\";\n".toList))
        (some "returned") {}).program.record false = .ok (literalRecord "a\nb") :=
      record_literal (by decide +kernel)
    have hout := out_json_text hgive [] hvalue
    obtain ⟨-, hout', -⟩ := outcome_json_file hgive [] hoperand hopen hvalue'
    have hne : (literalRecord "a\nb").write (some 2) 0 ≠
        (literalRecord "a\rb").write (some 2) 0 := by
      decide +kernel
    intro hsame
    have htext : (literalRecord "a\nb").text (some 2) = (literalRecord "a\rb").text (some 2) :=
      (String.append_left_inj "\n").1 (hout'.symm.trans (hsame.trans hout))
    exact hne (String.ofList_injective htext)

end Command

end RuleLang
