import RuleLang.Proofs.Grammar.Trees
import RuleLang.Proofs.Grammar.Written

/-!
Printing and reading again. The text of a well-formed program is read as the program, whatever its
origin, if the limit allows its nesting (`parse_programText`). The text of a program that was parsed
may be nested deeper than the source, since parentheses that the printer leaves out may have hidden
operators of a chain. So what is left of a source comes back under the same options exactly if its
own nesting fits the limit (`parse_reprinted`).
-/
namespace RuleLang

open Grammar

/-- The program up to its first statement that does not fit the levels. -/
def Node.fitting (levels : Nat) : Node → Node
  | .program statements span =>
    .program (statements.takeWhile fun n => n.statementNesting ≤ levels) span
  | n => n

theorem Node.fitting_eq_self {levels : Nat} {n : Node} (h : n.programNesting ≤ levels) :
    n.fitting levels = n := by
  cases n with
  | program statements span => rw [fitting, takeWhile_of_needed_le h]
  | _ => rfl

/-- Two programs are of the same shape if their statements are. -/
theorem sameShape_program {ns ms : List Node} (s t : Span)
    (h : ns.map Node.bare = ms.map Node.bare) :
    (Node.program ns s).sameShape (.program ms t) = true := by
  rw [Node.sameShape_iff, Node.bare, Node.bare, Node.bares_eq_map, Node.bares_eq_map, h]

section Written

variable {n : Node} {text : String} (h : n.IsProgram)
  (hwords : wordsOf text.toList = n.programWords) (file : Option String) (o : Options)
include hwords

/-- The tokens of a program that was written have its words. -/
theorem word_lex_written (file : String) :
    (lex text file).stream.ahead.map Token.word = n.programWords ∧
      (lex text file).diagnostics = [] := by
  have hflaws : ∀ w ∈ wordsOf text.toList, w.flaws = [] := hwords ▸ n.flaws_programWords
  exact ⟨hwords ▸ word_lex_of_flawless text file hflaws, diagnostics_lex text file hflaws⟩

include h

theorem programNesting_le_length (file : String) :
    n.programNesting ≤ (lex text file).stream.ahead.length := by
  obtain ⟨htokens, -⟩ := word_lex_written hwords file
  cases h with
  | program h => exact needed_le_length h htokens

/-- A program that was written is read up to its first statement that does not fit the limit, and
nothing but that is ever wrong with it. -/
theorem parse_written :
    let again := parse text file o
    again.lexical = [] ∧ again.program.sameShape (n.fitting o.levels) = true ∧
    (n.programNesting ≤ o.levels → again.faults = []) ∧
    (o.levels < n.programNesting → ∃ t, again.faults = [.tooDeep t]) := by
  obtain ⟨htokens, hlexical⟩ := word_lex_written hwords (o.fileFor file)
  cases h with
  | @program ns span h =>
    obtain ⟨hnodes, hfaults, hdeep⟩ := statements_written o.levels h htokens
      (fun t ht => placed_of_mem_lex ht) (Nat.le_refl _)
      (s := (lex text (o.fileFor file)).stream.atEnd) rfl
    rw [TokenStream.prepend_ahead] at hnodes hfaults hdeep
    exact ⟨hlexical, sameShape_program _ _ hnodes, hfaults, hdeep⟩

/-- A written program that is read without anything to report is read as the program. -/
theorem sameShape_written (hnone : (parse text file o).diagnostics = []) :
    (parse text file o).program.sameShape n = true := by
  obtain ⟨-, hshape, -, hdeep⟩ := parse_written h hwords file o
  rcases Nat.lt_or_ge o.levels n.programNesting with hlt | hle
  · obtain ⟨t, ht⟩ := hdeep hlt
    rw [Parsed.diagnostics, ht] at hnone
    cases (List.append_eq_nil_iff.1 hnone).2
  · rwa [Node.fitting_eq_self hle] at hshape

end Written

/-- Every well-formed program has a text, and under a limit that is not below the number of its
tokens the text is read as the program, without anything to report. -/
theorem parse_programText {n : Node} (h : n.IsProgram) (file : Option String) (o : Options) :
    ∃ text, n.programText = .ok text ∧
      ((lex text (o.fileFor file)).stream.ahead.length ≤ o.levels →
        (parse text file o).diagnostics = [] ∧
        (parse text file o).program.sameShape n = true) := by
  obtain ⟨text, hprinted, hwords⟩ := Node.exists_programText h
  refine ⟨text, hprinted, fun hlength => ?_⟩
  have hfits : n.programNesting ≤ o.levels :=
    Nat.le_trans (programNesting_le_length h hwords _) hlength
  obtain ⟨hlexical, hshape, hfaults, -⟩ := parse_written h hwords file o
  refine ⟨?_, Node.fitting_eq_self hfits ▸ hshape⟩
  rw [Parsed.diagnostics, hlexical, hfaults hfits]
  rfl

/-- The tree of `-(!a) < (a < "//")`, of which no part may lose its parentheses. -/
def handBuilt : Node :=
  let a := Node.identifier "a" Node.noSpan
  let sign := Node.unary "-" (.unary "!" a Node.noSpan) Node.noSpan
  let compared := Node.binary "<" a (.literal (.text "//") Node.noSpan) Node.noSpan
  .program [.expressionStatement (.binary "<" sign compared Node.noSpan) Node.noSpan] Node.noSpan

theorem isProgram_handBuilt : handBuilt.IsProgram := by
  have ha : IsName "a" := ⟨⟨'a', [], rfl, by decide, List.forall_mem_nil _⟩, by decide⟩
  have hsign : (Node.unary "!" (.identifier "a" Node.noSpan) Node.noSpan).IsExpression :=
    .unary (.inr rfl) (.identifier ha)
  refine .program (List.forall_mem_singleton.2 (.expressionStatement ?_))
  exact .binary (by decide) (.unary (.inl rfl) hsign)
    (.binary (by decide) (.identifier ha) (.literal trivial))

/-- Its text comes back under the default options. -/
theorem parse_programText_handBuilt :
    handBuilt.programText = .ok "-(!a) < (a < \"//\");\n" ∧
    (parse "-(!a) < (a < \"//\");\n" none {}).diagnostics = [] ∧
    (parse "-(!a) < (a < \"//\");\n" none {}).program.sameShape handBuilt = true := by
  obtain ⟨text, hprinted, hread⟩ := parse_programText isProgram_handBuilt none {}
  have htext : handBuilt.programText = .ok "-(!a) < (a < \"//\");\n" := by decide +kernel
  obtain rfl : text = "-(!a) < (a < \"//\");\n" := Except.ok.inj (hprinted.symm.trans htext)
  exact ⟨htext, hread (by decide +kernel)⟩

/-- What is left of any source has a text. Under the options of the source, the text is read up to
the first statement that is nested deeper than the limit, which is the only thing that can be wrong
with it; so it is read as the same program, with the same text and nothing to report, exactly if all
of it fits. -/
theorem parse_reprinted (source : String) (file file' : Option String) (o : Options) :
    let first := (parse source file o).program
    ∃ text, first.programText = .ok text ∧
      let again := parse text file' o
      again.program.sameShape (first.fitting o.levels) = true ∧
      (again.stoppedEarly = true ↔ o.levels < first.programNesting) ∧
      (again.diagnostics = [] ∧ again.program.sameShape first = true ∧
          again.program.programText = .ok text ↔
        first.programNesting ≤ o.levels) := by
  intro first
  have h : first.IsProgram := isProgram_parse source file o
  obtain ⟨text, hprinted, hwords⟩ := Node.exists_programText h
  obtain ⟨hlexical, hshape, hfaults, hdeep⟩ := parse_written h hwords file' o
  refine ⟨text, hprinted, hshape, ?_, ?_⟩
  · rw [Parsed.stoppedEarly]
    rcases Nat.lt_or_ge o.levels first.programNesting with hlt | hle
    · obtain ⟨t, ht⟩ := hdeep hlt
      rw [ht]
      exact ⟨fun _ => hlt, fun _ => rfl⟩
    · rw [hfaults hle]
      exact ⟨fun hany => absurd hany (by simp), fun hlt => absurd hlt (by omega)⟩
  · constructor
    · rintro ⟨hnone, -, -⟩
      by_contra hlt
      obtain ⟨t, ht⟩ := hdeep (by omega)
      rw [Parsed.diagnostics, hlexical, ht] at hnone
      cases hnone
    · intro hle
      rw [Node.fitting_eq_self hle] at hshape
      refine ⟨?_, hshape, ?_⟩
      · rw [Parsed.diagnostics, hlexical, hfaults hle]
        rfl
      · rw [← Node.programText_bare, (Node.sameShape_iff _ _).1 hshape, Node.programText_bare]
        exact hprinted

/-- The parentheses of `(a or b) or f(c)` start a chain of their own. Without them `f(c)` is the
third operand of one chain, and its argument stands one level deeper than in the source. -/
theorem reprinted_deeper :
    let o : Options := { maxDepth := .int 3 }
    (parse "(a or b) or f(c);" none o).diagnostics = [] ∧
    (parse "(a or b) or f(c);" none o).program.programText = .ok "a or b or f(c);\n" ∧
    (parse "a or b or f(c);\n" none o).stoppedEarly = true := by
  refine ⟨?_, ?_, ?_⟩
  · decide +kernel
  · decide +kernel
  · decide +kernel

end RuleLang
