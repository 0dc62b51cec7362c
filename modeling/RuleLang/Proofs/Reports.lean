import Mathlib.Data.List.Nodup
import RuleLang.Proofs.Agreement

/-!
Reports on invalid tokens. An invalid token is reported with the words of its source, and not again
where the grammar misses something at it. But a level of nesting beyond the limit that would open at
it is reported there as well (`invalid_reported`), so that there may be two diagnostics on it.
-/
namespace RuleLang

open Grammar

/-- The diagnostics on a place. -/
def diagnosticsOn (span : Span) (ds : List Diagnostic) : List Diagnostic :=
  ds.filter fun d => d.span = some span

/-- What there is to report about a token that is nested too deep. -/
def Options.tooDeepAt (o : Options) (t : Token) : Diagnostic :=
  .error ((Fault.tooDeep t).message o.maxDepth) (some t.span) (some "Expression")

section Tokens

variable {source file : String}

/-- The tokens of a source text are told apart by their places. -/
theorem nodup_starts :
    ((lex source file).stream.toList.map fun t => t.span.start).Nodup :=
  List.pairwise_map.2 (pairwise_tokens.imp fun h => Int.ne_of_lt h.1)

theorem eq_of_span_eq {t u : Token} (ht : t ∈ (lex source file).stream.toList)
    (hu : u ∈ (lex source file).stream.toList) (h : t.span = u.span) : t = u :=
  List.inj_on_of_nodup_map nodup_starts ht hu (congrArg Span.start h)

/-- What is reported about a fault stands on an invalid token only if the token is nested too
deep. -/
theorem diagnosticOn_invalid {t : Token} (h : t ∈ (lex source file).stream.toList)
    (hkind : t.kind = .invalid) (o : Options) {f : Fault}
    (hf : f.IsAmong (lex source file).stream.toList) :
    ((f.diagnostic? o.maxDepth).filter fun d => d.span = some t.span) =
      if f = .tooDeep t then some (o.tooDeepAt t) else none := by
  cases f with
  | unexpected e u =>
    rw [if_neg nofun, Fault.diagnostic?]
    split
    · rfl
    · rename_i hvalid
      have hne : u.span ≠ t.span := by
        intro hspan
        rw [eq_of_span_eq hf h hspan] at hvalid
        exact hvalid hkind
      simp [Option.filter, Diagnostic.error, hne]
  | tooDeep u =>
    by_cases hu : u = t
    · subst hu
      simp [Fault.diagnostic?, Options.tooDeepAt, Option.filter, Diagnostic.error]
    · have hne : u.span ≠ t.span := fun hspan => hu (eq_of_span_eq hf h hspan)
      simp [Fault.diagnostic?, Option.filter, Diagnostic.error, hne, hu]
  | unmeasured e u => exact hf.elim

/-- Of what is reported about faults, only a level of nesting beyond the limit stands on an invalid
token. -/
theorem diagnosticsOn_diagnose {t : Token} (h : t ∈ (lex source file).stream.toList)
    (hkind : t.kind = .invalid) (o : Options) {faults : List Fault} (hnodup : faults.Nodup)
    (hfaults : ∀ f ∈ faults, f.IsAmong (lex source file).stream.toList) :
    diagnosticsOn t.span (o.diagnose faults) =
      if .tooDeep t ∈ faults then [o.tooDeepAt t] else [] := by
  rw [diagnosticsOn, Options.diagnose, List.filter_filterMap]
  induction faults with
  | nil => rfl
  | cons f faults ih =>
    obtain ⟨hnot, hnodup⟩ := List.nodup_cons.1 hnodup
    obtain ⟨hf, hfaults⟩ := List.forall_mem_cons.1 hfaults
    rw [List.filterMap_cons, diagnosticOn_invalid h hkind o hf, ih hnodup hfaults]
    by_cases heq : f = .tooDeep t
    · subst heq
      simp [hnot]
    · simp [heq, Ne.symm heq]

/-- No two faults of a source text are the same. -/
theorem nodup_faults (o : Options) :
    (allStatements o.levels (lex source file).stream).faults.Nodup := by
  obtain ⟨-, hfaults⟩ := statements_attempts o.levels endsOnce_lex
    (Nat.le_refl _) (lex source file).stream
  rw [TokenStream.prepend_ahead] at hfaults
  have hfound := found_sublist o (lex source file).stream
    (endsOnce_lex : ∀ t ∈ (lex source file).stream.ahead, t.kind ≠ .eof)
  rw [← hfaults] at hfound
  exact (hfound.nodup nodup_starts.of_map).of_map

end Tokens

section Reports

variable {source : String} {file : Option String} {o : Options} {t : Token}

/-- An invalid token that is reported with the words of its source is reported again only if it is
nested too deep. -/
theorem diagnosticsOn_append (h : t ∈ (lex source (o.fileFor file)).stream.ahead)
    (hkind : t.kind = .invalid) {d : Diagnostic}
    (hd : diagnosticsOn t.span (lex source (o.fileFor file)).diagnostics = [d])
    {faults : List Fault} (hnodup : faults.Nodup)
    (hamong : ∀ f ∈ faults, f.IsAmong (lex source (o.fileFor file)).stream.toList) :
    diagnosticsOn t.span ((lex source (o.fileFor file)).diagnostics ++ o.diagnose faults) =
      d :: (if .tooDeep t ∈ faults then [o.tooDeepAt t] else []) := by
  have ht : t ∈ (lex source (o.fileFor file)).stream.toList := List.mem_append_left _ h
  have hsplit (ds es : List Diagnostic) :
      diagnosticsOn t.span (ds ++ es) = diagnosticsOn t.span ds ++ diagnosticsOn t.span es :=
    List.filter_append _ _
  rw [hsplit, hd, diagnosticsOn_diagnose ht hkind o hnodup hamong, List.singleton_append]

theorem diagnosticsOn_parse (h : t ∈ (lex source (o.fileFor file)).stream.ahead)
    (hkind : t.kind = .invalid) {d : Diagnostic}
    (hd : diagnosticsOn t.span (lex source (o.fileFor file)).diagnostics = [d]) :
    diagnosticsOn t.span (parse source file o).diagnostics =
      d :: (if .tooDeep t ∈ (parse source file o).faults then [o.tooDeepAt t] else []) :=
  diagnosticsOn_append h hkind hd (nodup_faults o) fun _ hf =>
    allStatements_isAmong o endsOnce_lex (fun _ => measured_of_mem_lex) hf

theorem diagnosticsOn_parseExpression (h : t ∈ (lex source (o.fileFor file)).stream.ahead)
    (hkind : t.kind = .invalid) {d : Diagnostic}
    (hd : diagnosticsOn t.span (lex source (o.fileFor file)).diagnostics = [d]) :
    diagnosticsOn t.span (parseExpression source file o).2 =
      d :: (if .tooDeep t ∈
          (Goal.rule.read o.levels (lex source (o.fileFor file)).stream).faults
        then [o.tooDeepAt t] else []) := by
  rw [Goal.read]
  cases hread : rule o.levels (lex source (o.fileFor file)).stream with
  | ok e rest =>
    rw [parseExpression_of_ok hread]
    exact hd
  | error f rest =>
    rw [parseExpression_of_error hread]
    exact diagnosticsOn_append h hkind hd (List.nodup_singleton f)
      (List.forall_mem_singleton.2 (rule_isAmong hread))

end Reports

/-- An invalid token is reported once with the words of its source. Whether the source is read as a
program or as an expression, the only other diagnostic that may stand on it says that it is nested
too deep. -/
theorem invalid_reported (source : String) (file : Option String) (o : Options) {t : Token}
    (h : t ∈ (lex source (o.fileFor file)).stream.ahead) (hkind : t.kind = .invalid) :
    let lexed := lex source (o.fileFor file)
    ∃ d ∈ lexed.diagnostics, d.production = none ∧
      diagnosticsOn t.span (parse source file o).diagnostics =
        d :: (if .tooDeep t ∈ (parse source file o).faults then [o.tooDeepAt t] else []) ∧
      diagnosticsOn t.span (parseExpression source file o).2 =
        d :: (if .tooDeep t ∈ (Goal.rule.read o.levels lexed.stream).faults then [o.tooDeepAt t]
          else []) := by
  obtain ⟨d, hproduction, hd⟩ := exists_diagnostic_of_invalid h hkind
  refine ⟨d, ?_, hproduction, diagnosticsOn_parse h hkind hd,
    diagnosticsOn_parseExpression h hkind hd⟩
  exact List.mem_of_mem_filter (hd ▸ List.mem_singleton_self d)

/-- The sign in `(@` as a token. -/
def sign : Token := ⟨.invalid, "@", ⟨"<string>", 1, 2, 1, 2, 1, 3⟩, .null⟩

theorem stream_sign : (lex "(@" "<string>").stream =
    ⟨[⟨.lparen, "(", ⟨"<string>", 0, 1, 1, 1, 1, 2⟩, .null⟩, sign],
      .endOf "<string>" ⟨2, 1, 3⟩, rfl⟩ := by
  decide +kernel

theorem sign_mem : sign ∈ (lex "(@" "<string>").stream.ahead := by
  rw [stream_sign]
  exact List.mem_cons_of_mem _ List.mem_cons_self

/-- The sign in `(@` does not fit where it stands, but that is not reported again. -/
theorem invalid_reported_sign :
    ∃ d, d.production = none ∧
      diagnosticsOn sign.span (parse "(@" none { maxDepth := .int 2 }).diagnostics = [d] := by
  obtain ⟨d, -, hproduction, hparse, -⟩ :=
    invalid_reported "(@" none { maxDepth := .int 2 } sign_mem rfl
  have hfaults :
      (parse "(@" none { maxDepth := .int 2 }).faults = [.unexpected .expression sign] := by
    change (allStatements 2 (lex "(@" "<string>").stream).faults = _
    rw [stream_sign]
    rfl
  rw [hfaults] at hparse
  exact ⟨d, hproduction, hparse⟩

/-- With one level of nesting, the sign in `(@` is nested too deep, and that is reported as well. -/
theorem invalid_reported_twice :
    let o : Options := { maxDepth := .int 1 }
    sign ∈ (lex "(@" o.filename).stream.ahead ∧ sign.kind = .invalid ∧
      (diagnosticsOn sign.span (parse "(@" none o).diagnostics).map Diagnostic.production =
        [none, some "Expression"] ∧
      (diagnosticsOn sign.span (parseExpression "(@" none o).2).map Diagnostic.production =
        [none, some "Expression"] := by
  intro o
  obtain ⟨d, hproduction, hd⟩ := exists_diagnostic_of_invalid sign_mem rfl
  have hstatements : (allStatements 1 (lex "(@" "<string>").stream).faults = [.tooDeep sign] := by
    rw [stream_sign]
    rfl
  have hrule : (Goal.rule.read 1 (lex "(@" "<string>").stream).faults = [.tooDeep sign] := by
    rw [stream_sign]
    rfl
  have hparse : diagnosticsOn sign.span (parse "(@" none o).diagnostics =
      d :: (if .tooDeep sign ∈ (allStatements 1 (lex "(@" "<string>").stream).faults
        then [o.tooDeepAt sign] else []) := diagnosticsOn_parse sign_mem rfl hd
  have halone : diagnosticsOn sign.span (parseExpression "(@" none o).2 =
      d :: (if .tooDeep sign ∈ (Goal.rule.read 1 (lex "(@" "<string>").stream).faults
        then [o.tooDeepAt sign] else []) := diagnosticsOn_parseExpression sign_mem rfl hd
  have hboth : [d, o.tooDeepAt sign].map Diagnostic.production = [none, some "Expression"] := by
    rw [List.map_cons, hproduction]
    rfl
  refine ⟨sign_mem, rfl, ?_, ?_⟩
  · rw [hparse, hstatements, if_pos (List.mem_singleton_self _), hboth]
  · rw [halone, hrule, if_pos (List.mem_singleton_self _), hboth]

end RuleLang
