import RuleLang.Proofs.Command.Requests
import RuleLang.Proofs.Consumers
import RuleLang.Proofs.Grammar.Trees
import RuleLang.Proofs.Located
import RuleLang.Proofs.Names
import RuleLang.Proofs.Node.Words

/-!
The commands agree with the library and with each other (`commands_agree`). Each of them ends by
what is reported about the source, which it writes behind its log; what is reported about the words
of a source is also reported with its statements. Whether a source is a text at hand or the content
of a file shows in the names of places only.
-/
namespace RuleLang.Command

/-! ## Reports -/

/-- The lines of a log. Only warnings are shown unless all is asked for. -/
def logLines (verbose : Bool) (log : List LogEntry) : List String :=
  (log.filter fun e => verbose || e.level = .warning).map fun e =>
    (if e.level = .warning then "WARNING " else "DEBUG ") ++ e.source ++ ": " ++ e.message

/-- Standard error holds the lines of the log, and behind them those of the diagnostics in their
order, which are shown without escape sequences. -/
def Outcome.Reports (verbose : Bool) (out : Outcome) (log : List LogEntry)
    (ds : List Diagnostic) : Prop :=
  ∃ lines, ds.mapM Diagnostic.text = .ok lines ∧
    out.err =
      String.join ((logLines verbose log ++ lines.map Text.stripEscapes).map (· ++ "\n"))

theorem logText_eq (verbose : Bool) (log : List LogEntry) :
    logText verbose log = String.join ((logLines verbose log).map (· ++ "\n")) := by
  induction log with
  | nil => rfl
  | cons e log ih =>
    have hcons : logText verbose (e :: log) = e.line verbose ++ logText verbose log := by
      simp [logText]
    rw [hcons, ih, LogEntry.line, logLines, logLines]
    cases hlevel : e.level <;> cases verbose <;> simp [hlevel]

theorem exists_lines {ds : List Diagnostic} (h : ∀ d ∈ ds, ∃ line, d.text = .ok line) :
    ∃ lines, ds.mapM Diagnostic.text = .ok lines ∧
      reportLines ds = String.join ((lines.map Text.stripEscapes).map (· ++ "\n")) := by
  obtain ⟨lines, hlines⟩ := exists_texts h
  refine ⟨lines, hlines, ?_⟩
  have htold := forall₂_text hlines
  clear h hlines
  induction htold with
  | nil => rfl
  | cons hline htold ih =>
    rw [reportLines, List.map_cons, String.join_cons, List.map_cons, List.map_cons,
      String.join_cons, hline]
    exact congrArg _ ih

theorem reportCode_eq (ds : List Diagnostic) : reportCode ds = if ds = [] then 0 else 1 := by
  simp only [reportCode, List.isEmpty_iff]

/-- What is reported decides the code only by whether it is anything. -/
theorem reportCode_congr {ds es : List Diagnostic} (h : ds = [] ↔ es = []) :
    reportCode ds = reportCode es := by
  simp only [reportCode_eq, h]

/-! ## Requests -/

/-- What the library reports about a source that is given as a text. -/
def Request.diagnostics (o : Options) (s : String) : Request → List Diagnostic
  | .tokens => (lex s o.filename).diagnostics
  | .parse _ | .check => (RuleLang.parse s none o).diagnostics

/-- What is logged about a source that is given as a text. -/
def Request.log (o : Options) (s : String) : Request → List LogEntry
  | .tokens => [.lexed o.filename (lex s o.filename).tokens.length]
  | .parse _ | .check =>
    let parsed := RuleLang.parse s none o
    [.lexed o.filename (lex s o.filename).tokens.length] ++
      (if parsed.stoppedEarly then [.stopped o.maxDepth] else []) ++
      [.parsed o.filename (statementCount parsed.program) parsed.diagnostics.length]

/-- The name that the options give is the one that is taken for a text without any. -/
theorem parse_filename (s : String) (o : Options) :
    parse s (some o.filename) o = parse s none o := by
  have hfile : o.fileFor (some o.filename) = o.fileFor none := by
    simp only [Options.fileFor, ite_self]
  simp only [parse, hfile]

namespace Request

variable (q : Request) (verbose : Bool) (o : Options)

theorem exists_text_diagnostics {s : String} (hlength : s.length < 0x8000000000000000) :
    ∀ d ∈ q.diagnostics o s, ∃ line, d.text = .ok line := by
  rw [← String.length_toList] at hlength
  intro d hd
  cases q with
  | tokens => exact (isLocated_lex hd).exists_text hlength
  | parse | check => exact (isLocated_parse hd).exists_text hlength

/-- A request for a text ends by what the library reports about the text, which is written behind
the log. -/
theorem outcome_text (s : String) :
    (q.outcome verbose o ⟨s, o.filename⟩).code = reportCode (q.diagnostics o s) ∧
      (q.outcome verbose o ⟨s, o.filename⟩).err =
        logText verbose (q.log o s) ++ reportLines (q.diagnostics o s) ∧
      (q.outcome verbose o ⟨s, o.filename⟩).crash = none := by
  cases q with
  | tokens => exact ⟨rfl, rfl, rfl⟩
  | parse format =>
    simp only [outcome, runParse, parse_filename]
    exact ⟨rfl, rfl, trivial⟩
  | check =>
    simp only [outcome, runCheck, parse_filename]
    exact ⟨rfl, rfl, trivial⟩

/-- A text whose length fits into a signed 64-bit word is reported about line by line. -/
theorem reports_text {g : Settings} (s : String) (hlength : s.length < 0x8000000000000000) :
    ((q.outcome g.verbose o ⟨s, o.filename⟩).after (logText g.verbose (g.log o))).Reports g.verbose
      (g.log o ++ q.log o s) (q.diagnostics o s) := by
  obtain ⟨lines, hlines, hjoin⟩ := exists_lines (q.exists_text_diagnostics o hlength)
  refine ⟨lines, hlines, ?_⟩
  obtain ⟨-, herr, -⟩ := q.outcome_text g.verbose o s
  rw [Outcome.after, herr, hjoin, logText_eq, logText_eq, logLines, logLines, logLines,
    List.filter_append, List.map_append, List.map_append, List.map_append, String.join_append,
    String.join_append, String.append_assoc]

/-- The name of a file changes neither the code nor what is printed. -/
theorem outcome_renamed (s file file' : String) :
    (q.outcome verbose o ⟨s, file⟩).code = (q.outcome verbose o ⟨s, file'⟩).code ∧
      (q.outcome verbose o ⟨s, file⟩).crash = none ∧
      (q ≠ .check →
        (q.outcome verbose o ⟨s, file⟩).out = (q.outcome verbose o ⟨s, file'⟩).out) := by
  cases q with
  | tokens =>
    refine ⟨reportCode_congr (diagnostics_lex_renamed s file file'), rfl, fun _ => ?_⟩
    have hlines := congrArg (List.map echo) (tokenLines_renamed s file file')
    rw [List.map_map, List.map_map] at hlines
    exact congrArg String.join hlines
  | parse format =>
    refine ⟨reportCode_congr (diagnostics_parse_renamed s _ _ o), rfl, fun _ => ?_⟩
    cases format with
    | json spans =>
      simp only [outcome, runParse, treeText, Node.dump,
        record_renamed s (some file) (some file') o]
    | source =>
      simp only [outcome, runParse, treeText, programText_renamed s (some file) (some file') o]
  | check =>
    exact ⟨reportCode_congr (diagnostics_parse_renamed s _ _ o), rfl, fun h => absurd rfl h⟩

/-- A tree is printed whatever is reported about it. -/
theorem out_json (s : Source) (spans : Bool)
    (hlength : spans = true → s.text.length < 0x8000000000000000) :
    ∃ r, (RuleLang.parse s.text (some s.file) o).program.record spans = .ok r ∧
      (RuleLang.parse s.text (some s.file) o).program.dump spans (some 2) =
        .ok (r.text (some 2)) ∧
      ((Request.parse (.json spans)).outcome verbose o s).out = r.text (some 2) ++ "\n" := by
  obtain ⟨r, hr, hdump⟩ := exists_dump_program s.text (some s.file) o (some 2) hlength
  refine ⟨r, hr, hdump, ?_⟩
  simp only [outcome, runParse, treeText, hdump, Json.stripEscapes_line]

theorem out_source (s : Source) :
    ∃ text, (RuleLang.parse s.text (some s.file) o).program.programText = .ok text ∧
      ((Request.parse .source).outcome verbose o s).out = Text.stripEscapes text := by
  obtain ⟨text, htext, -⟩ := Node.exists_programText (isProgram_parse s.text (some s.file) o)
  refine ⟨text, htext, ?_⟩
  simp only [outcome, runParse, treeText, htext]

theorem out_check (s : String) :
    (Request.check.outcome verbose o ⟨s, o.filename⟩).out =
      if Request.check.diagnostics o s = []
      then Text.stripEscapes (o.filename ++ ": " ++
        toString (statementCount (RuleLang.parse s none o).program) ++ " statements, no errors") ++
          "\n"
      else "" := by
  simp only [outcome, runCheck, parse_filename, List.isEmpty_iff]
  rfl

/-- What is reported about the words of a text is also reported with its statements. -/
theorem diagnostics_tokens_subset (s : String) :
    Request.tokens.diagnostics o s ⊆ q.diagnostics o s := by
  cases q with
  | tokens => exact List.Subset.refl _
  | parse | check => exact List.subset_append_left _ _

end Request

/-- What the program does with a source text, under settings that give some options. It ends with
code 1 if the library reports anything, and with code 0 otherwise; so if the tokens are faulty, all
fails. The tree is printed in any case, and the summary of a check exactly if it ends with code 0.
Standard error holds the lines of what is reported behind those of the log; places can be shown if
the length of the text fits into a signed 64-bit word. With a file that holds the text, the program
ends in the same way and prints the same tokens and the same trees. -/
theorem commands_agree (read : FileReader) (stdin : List UInt8) (g : Settings) (o : Options)
    (h : g.Give read o) (s : String) :
    let outcome (q : Request) : Outcome :=
      run read stdin (g.arguments ++ q.arguments ++ ["-e", s])
    let program := (parse s none o).program
    (∀ q, (outcome q).crash = none ∧
      (outcome q).code = if q.diagnostics o s = [] then 0 else 1) ∧
    ((outcome .tokens).code = 1 → ∀ q, (outcome q).code = 1) ∧
    (∀ spans, (spans = true → s.length < 0x8000000000000000) →
      ∃ text, program.dump spans (some 2) = .ok text ∧
        (outcome (.parse (.json spans))).out = text ++ "\n") ∧
    (∃ text, program.programText = .ok text ∧
      (outcome (.parse .source)).out = Text.stripEscapes text) ∧
    (outcome .check).out = (if (outcome .check).code = 0
      then Text.stripEscapes (o.filename ++ ": " ++ toString (statementCount program) ++
        " statements, no errors") ++ "\n"
      else "") ∧
    (s.length < 0x8000000000000000 → ∀ q,
      (outcome q).Reports g.verbose (g.log o ++ q.log o s) (q.diagnostics o s)) ∧
    ∀ path operand name, IsOperand path operand → '\r' ∉ s.toList →
      openFile read stdin path = .ok (.bytes (Text.bytesOf s) name) → ∀ q,
        let outcome' := run read stdin (g.arguments ++ q.arguments ++ operand)
        outcome'.crash = none ∧ outcome'.code = (outcome q).code ∧
          (q ≠ .check → outcome'.out = (outcome q).out) := by
  intro outcome program
  have hrun (q : Request) : outcome q =
      (q.outcome g.verbose o ⟨s, o.filename⟩).after (logText g.verbose (g.log o)) := run_text h q s
  have hcode (q : Request) : (outcome q).code = if q.diagnostics o s = [] then 0 else 1 := by
    obtain ⟨hcode, -⟩ := q.outcome_text g.verbose o s
    rw [hrun, ← reportCode_eq, ← hcode]
    rfl
  refine ⟨fun q => ⟨?_, hcode q⟩, ?_, ?_, ?_, ?_, ?_, ?_⟩
  · obtain ⟨-, -, hcrash⟩ := q.outcome_text g.verbose o s
    rw [hrun]
    exact hcrash
  · intro hfail q
    rw [hcode] at hfail ⊢
    refine if_neg fun hnone => ?_
    have htokens := List.subset_nil.1 (hnone ▸ q.diagnostics_tokens_subset o s)
    rw [if_pos htokens] at hfail
    cases hfail
  · intro spans hlength
    obtain ⟨r, -, hdump, hout⟩ := Request.out_json g.verbose o ⟨s, o.filename⟩ spans hlength
    rw [parse_filename] at hdump
    exact ⟨r.text (some 2), hdump, (congrArg Outcome.out (hrun _)).trans hout⟩
  · obtain ⟨text, htext, hout⟩ := Request.out_source g.verbose o ⟨s, o.filename⟩
    rw [parse_filename] at htext
    exact ⟨text, htext, (congrArg Outcome.out (hrun _)).trans hout⟩
  · have hout := (congrArg Outcome.out (hrun .check)).trans (Request.out_check g.verbose o s)
    by_cases hnone : Request.check.diagnostics o s = []
    · rw [hout, hcode, if_pos hnone, if_pos hnone, if_pos rfl]
    · rw [hout, hcode, if_neg hnone, if_neg hnone, if_neg Nat.one_ne_zero]
  · intro hlength q
    rw [hrun]
    exact q.reports_text o s hlength
  · intro path operand name hoperand hreturn hopen q
    obtain ⟨hsame, hcrash, hout⟩ := q.outcome_renamed g.verbose o s name o.filename
    rw [run_file h q hoperand hopen hreturn, hrun]
    exact ⟨hcrash, hsame, hout⟩

/-- Two files: options that allow one level of nesting, and a source that has two. -/
def shelf : FileReader := fun path =>
  if path = "options.yaml" then .ok (Text.bytesOf "max_depth: 1")
  else if path = "rule" then .ok (Text.bytesOf "(a)")
  else .error .missing

theorem give_shelf (verbose : Bool) :
    Settings.Give ⟨verbose, some "options.yaml"⟩ shelf { maxDepth := .int 1 } := by
  -- why a file gives no options is not compared, so the options alone are
  have hload : (Options.load shelf (.ofString "options.yaml")).toOption =
      some { maxDepth := .int 1 } := by
    decide +kernel
  refine ⟨?_, nofun, nofun⟩
  generalize Options.load shelf (.ofString "options.yaml") = loaded at hload
  cases loaded with
  | error e => cases hload
  | ok o => exact congrArg Except.ok (Option.some.inj hload)

/-- The tree of a program that is the name `c`. -/
def nameTree : String :=
  "\x7b\n  \"type\": \"Program\",\n  \"statements\": [\n    \x7b\n" ++
    "      \"type\": \"ExpressionStatement\",\n      \"expression\": \x7b\n" ++
    "        \"type\": \"Identifier\",\n        \"name\": \"c\"\n      \x7d\n    \x7d\n  ]\n\x7d"

/-- Nothing is wrong with the tokens of a source that is nested too deep, at hand or in a file. What
is left of a faulty source is printed, and its faults are told by the code. -/
theorem commands_agree_nested :
    let outcome (arguments : List String) : Outcome :=
      run shelf [] (["--verbose", "--config", "options.yaml"] ++ arguments)
    let loaded := "DEBUG qubitlib.config: loaded parser options from options.yaml: " ++
      "ParserOptions(max_depth=1, filename='<string>')\n"
    (outcome ["tokens", "-e", "(a)"]).code = 0 ∧
    (outcome ["tokens", "-e", "(a)"]).err =
      loaded ++ "DEBUG qubitlib.parser.lexer: lexed <string>: 4 tokens\n" ∧
    (outcome ["check", "-e", "(a)"]).code = 1 ∧ (outcome ["check", "-e", "(a)"]).out = "" ∧
    (outcome ["check", "-e", "(a)"]).err =
      loaded ++ "DEBUG qubitlib.parser.lexer: lexed <string>: 4 tokens\n" ++
        "WARNING qubitlib.parser.parser: nesting limit of 1 reached, parse stopped\n" ++
        "DEBUG qubitlib.parser.parser: parsed <string>: 0 statements, 1 diagnostics\n" ++
        "<string>:1:2: error: Expression nesting exceeds maximum depth of 1\n" ∧
    (outcome ["check", "-e", "a"]).out = "<string>: 1 statements, no errors\n" ∧
    (outcome ["parse", "--no-spans", "-e", "a b; c"]).code = 1 ∧
    (outcome ["parse", "--no-spans", "-e", "a b; c"]).out = nameTree ++ "\n" ∧
    (outcome ["parse", "--format", "source", "-e", "a b; c"]).out = "c;\n" ∧
    (outcome ["tokens", "rule"]).code = 0 ∧ (outcome ["check", "rule"]).code = 1 := by
  obtain ⟨hcode, -, -, -, hout, hreports, hfile⟩ :=
    commands_agree shelf [] _ _ (give_shelf true) "(a)"
  obtain ⟨hflat, -, -, -, hsummary, -, -⟩ := commands_agree shelf [] _ _ (give_shelf true) "a"
  obtain ⟨hfaulty, -, hjson, ⟨text, htext, hsource⟩, -, -, -⟩ :=
    commands_agree shelf [] _ _ (give_shelf true) "a b; c"
  have hoperand : IsOperand "rule" ["rule"] := .plain (by decide)
  have hnested : (parse "(a)" none { maxDepth := .int 1 }).diagnostics ≠ [] := by decide +kernel
  have htokens := (hcode .tokens).2.trans (if_pos (by decide +kernel))
  have hcheck := (hcode .check).2.trans (if_neg hnested)
  have hpassed := (hflat .check).2.trans (if_pos (by decide +kernel))
  have hrule := hfile "rule" ["rule"] "rule" hoperand (by decide) rfl
  obtain ⟨lines, hlines, herr⟩ := hreports (by decide) .tokens
  obtain ⟨lines', hlines', herr'⟩ := hreports (by decide) .check
  obtain rfl : lines = [] := Except.ok.inj (hlines.symm.trans (by decide +kernel))
  obtain rfl : lines' = ["<string>:1:2: error: Expression nesting exceeds maximum depth of 1"] :=
    Except.ok.inj (hlines'.symm.trans (by decide +kernel))
  obtain ⟨tree, htree, hprinted⟩ := hjson false nofun
  obtain rfl : tree = nameTree := Except.ok.inj (htree.symm.trans (by decide +kernel))
  obtain rfl : text = "c;\n" := Except.ok.inj (htext.symm.trans (by decide +kernel))
  refine ⟨htokens, herr.trans ?_, hcheck, hout.trans (if_neg (by rw [hcheck]; decide)),
    herr'.trans ?_, (hsummary.trans (if_pos hpassed)).trans ?_,
    (hfaulty (.parse (.json false))).2.trans (if_neg (by decide +kernel)), hprinted,
    hsource.trans ?_, (hrule .tokens).2.1.trans htokens, (hrule .check).2.1.trans hcheck⟩
  · decide +kernel
  · decide +kernel
  · decide +kernel
  · decide +kernel

end RuleLang.Command
