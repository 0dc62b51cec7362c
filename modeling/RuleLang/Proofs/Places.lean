import RuleLang.Diagnostic.Record
import RuleLang.Proofs.Located
import RuleLang.Proofs.Reports
import RuleLang.Proofs.Token.Faults

/-!
The places that diagnostics show. Every diagnostic about a source text has a span, but the span of
one that is found at the end of the text holds no character, and such a span is not shown. So a
diagnostic shows its place exactly if it is not found there (`diagnostics_placed`).
-/
namespace RuleLang

open Grammar

namespace Diagnostic

/-- The text of an error that shows the given place, or none. -/
def textAt (d : Diagnostic) : Option Span → String
  | some s =>
    s.file ++ ":" ++ toString s.line ++ ":" ++ toString s.column ++ ": error: " ++ d.message
  | none => "error: " ++ d.message

/-- The JSON value of an error that shows the given place, or none. -/
def recordAt (d : Diagnostic) (place : Option Span) : Json :=
  .object [("severity", .string "error"), ("message", .string d.message),
    ("span", (place.map Span.record).getD .null),
    ("production", (d.production.map Json.string).getD .null)]

/-- The diagnostic shows the given place, or none, both as a text and as a JSON value. -/
structure Shows (d : Diagnostic) (place : Option Span) : Prop where
  text : d.text = .ok (d.textAt place)
  record : d.record = .ok (d.recordAt place)

theorem shows_of_shownSpan {d : Diagnostic} {place : Option Span}
    (h : d.shownSpan = .ok place) : d.Shows place := by
  obtain ⟨⟨⟩, message, span, production⟩ := d
  constructor
  · have hlabel : ": error: " = ": " ++ "error" ++ ": " := by decide
    cases place with
    | none => simp [Diagnostic.text, h, textAt, Severity.label]
    | some s =>
      simp only [Diagnostic.text, h, textAt, Severity.label, Span.location, hlabel,
        String.append_assoc]
  · rw [Diagnostic.record, h]
    rfl

/-- What is shown tells whether a place is. -/
theorem not_shows_none {d : Diagnostic} {s : Span} (h : d.Shows (some s)) : ¬d.Shows none := by
  intro hnone
  have hrecord := Except.ok.inj (h.record.symm.trans hnone.record)
  simp [recordAt, Span.record] at hrecord

/-- A diagnostic about a stretch of a text shows it, unless the stretch is empty. -/
theorem shows_stretch {d : Diagnostic} {file : String} {text : List Char} {i j : Nat}
    (hspan : d.span = some (.stretch file text i j)) (hij : i ≤ j)
    (hj : j < 0x8000000000000000) :
    d.Shows (if i = j then none else some (.stretch file text i j)) := by
  have hempty : (Span.stretch file text i j).isEmpty = .ok (decide (j - i = 0)) := by
    rw [Span.isEmpty, Span.length_stretch hij hj]
  have heq : j - i = 0 ↔ i = j := by omega
  apply shows_of_shownSpan
  simp only [shownSpan, hspan, hempty, heq]
  by_cases h : i = j <;> simp [h]

end Diagnostic

section Sources

variable {source : String} {file : Option String} {o : Options}

/-- What is reported about a word holds a character. -/
theorem exists_stretch_of_lexical {name : String} {d : Diagnostic}
    (h : d ∈ (lex source name).diagnostics) : ∃ i j, i < j ∧ j ≤ source.toList.length ∧
      d.span = some (.stretch name source.toList i j) := by
  obtain ⟨i, j, -, hj, hspan⟩ := isLocated_lex h
  obtain ⟨⟨p, w⟩, hmem, hd⟩ := List.mem_flatMap.1 h
  have hd : d.span ∈ (w.diagnostics name p).map Diagnostic.span := List.mem_map_of_mem hd
  rw [spans_diagnostics hmem, hspan] at hd
  obtain ⟨s, hs, heq⟩ := List.mem_map.1 hd
  obtain ⟨-, -, hlt, -⟩ := faultSpans_within hmem s hs
  rw [Option.some.inj heq] at hlt
  exact ⟨i, j, Int.ofNat_lt.1 hlt, hj, hspan⟩

theorem span_last (source name : String) : (lex source name).stream.last.span =
    .stretch name source.toList source.toList.length source.toList.length := by
  rw [← Span.between_prefixes name List.prefix_rfl List.prefix_rfl]
  rfl

/-- What is reported at a token in front of the end holds a character. -/
theorem exists_stretch_of_found {name : String} {f : Fault} {limit : Number} {d : Diagnostic}
    (h : f.found ∈ (lex source name).stream.ahead) (hd : f.diagnostic? limit = some d) :
    ∃ i j, i < j ∧ j ≤ source.toList.length ∧
      d.span = some (.stretch name source.toList i j) := by
  obtain ⟨i, j, hij, hj, hspan⟩ := exists_stretch h
  exact ⟨i, j, hij, hj, (span_of_diagnostic? hd).trans (congrArg some hspan)⟩

theorem stretch_ne_last {name : String} {i j : Nat} (hij : i < j) :
    Span.stretch name source.toList i j ≠ (lex source name).stream.last.span := by
  rw [span_last]
  intro heq
  have hstart : i = source.toList.length := Int.ofNat_inj.1 (congrArg Span.start heq)
  have hstop : j = source.toList.length := Int.ofNat_inj.1 (congrArg Span.stop heq)
  omega

section Faults

variable {faults : List Fault}
  (hfaults : ∀ f ∈ faults, f.IsAmong (lex source (o.fileFor file)).stream.toList)
include hfaults

/-- A diagnostic is about some characters of the text, or about a fault at its end. -/
theorem place_cases {d : Diagnostic}
    (h : d ∈ (lex source (o.fileFor file)).diagnostics ++ o.diagnose faults) :
    (∃ i j, i < j ∧ j ≤ source.toList.length ∧
      d.span = some (.stretch (o.fileFor file) source.toList i j)) ∨
    ∃ f ∈ faults, f.found = (lex source (o.fileFor file)).stream.last ∧
      d.span = some (lex source (o.fileFor file)).stream.last.span := by
  obtain h | h := List.mem_append.1 h
  · exact .inl (exists_stretch_of_lexical h)
  · obtain ⟨f, hf, hd⟩ := List.mem_filterMap.1 h
    obtain hahead | hlast := List.mem_append.1 (found_mem (hfaults f hf))
    · exact .inl (exists_stretch_of_found hahead hd)
    · have hlast := List.mem_singleton.1 hlast
      exact .inr ⟨f, hf, hlast, hlast ▸ span_of_diagnostic? hd⟩

/-- There is something to report about a fault at the end of the text. -/
theorem exists_diagnostic_of_last {f : Fault} (hf : f ∈ faults)
    (hlast : f.found = (lex source (o.fileFor file)).stream.last) :
    ∃ d ∈ (lex source (o.fileFor file)).diagnostics ++ o.diagnose faults,
      d.span = some (lex source (o.fileFor file)).stream.last.span := by
  have hvalid : ∀ t ∈ [(lex source (o.fileFor file)).stream.last], t.kind ≠ .invalid :=
    List.forall_mem_singleton.2 nofun
  have hamong : f.IsAmong [(lex source (o.fileFor file)).stream.last] := by
    have hf := hfaults f hf
    cases f with
    | unexpected | tooDeep => exact List.mem_singleton.2 hlast
    | unmeasured => exact hf.elim
  obtain ⟨d, hd⟩ := exists_diagnostic hvalid hamong o.maxDepth
  exact ⟨d, List.mem_append_right _ (List.mem_filterMap.2 ⟨f, hf, hd⟩),
    hlast ▸ span_of_diagnostic? hd⟩

variable (hlength : source.length < 0x8000000000000000)
include hlength

/-- A diagnostic shows its place, unless that is the end of the text. -/
theorem shows_of_mem {d : Diagnostic}
    (h : d ∈ (lex source (o.fileFor file)).diagnostics ++ o.diagnose faults) :
    ∃ s, d.span = some s ∧ s.file = o.fileFor file ∧
      d.Shows (if s = (lex source (o.fileFor file)).stream.last.span then none else some s) := by
  rw [← String.length_toList] at hlength
  obtain ⟨i, j, hij, hj, hspan⟩ | ⟨f, -, -, hspan⟩ := place_cases hfaults h
  · refine ⟨_, hspan, rfl, ?_⟩
    have hshows :=
      Diagnostic.shows_stretch hspan (Nat.le_of_lt hij) (Nat.lt_of_le_of_lt hj hlength)
    rw [if_neg (Nat.ne_of_lt hij)] at hshows
    rwa [if_neg (stretch_ne_last hij)]
  · refine ⟨_, hspan, rfl, ?_⟩
    rw [span_last] at hspan
    have hshows := Diagnostic.shows_stretch hspan (Nat.le_refl _) hlength
    rwa [if_pos rfl] at hshows ⊢

/-- All diagnostics show their places exactly if no fault is found at the end of the text. -/
theorem all_show_iff :
    (∀ d ∈ (lex source (o.fileFor file)).diagnostics ++ o.diagnose faults,
      ∃ s, d.span = some s ∧ d.Shows (some s)) ↔
    ∀ f ∈ faults, f.found ≠ (lex source (o.fileFor file)).stream.last := by
  constructor
  · intro hall f hf hlast
    obtain ⟨d, hd, hspan⟩ := exists_diagnostic_of_last hfaults hf hlast
    obtain ⟨s, hs, hshows⟩ := hall d hd
    obtain ⟨s', hs', -, hnone⟩ := shows_of_mem hfaults hlength hd
    rw [if_pos (Option.some.inj (hs'.symm.trans hspan))] at hnone
    exact Diagnostic.not_shows_none hshows hnone
  · intro hnone d hd
    obtain ⟨i, j, hij, -, hspan⟩ | ⟨f, hf, hlast, -⟩ := place_cases hfaults hd
    · obtain ⟨s, hs, -, hshows⟩ := shows_of_mem hfaults hlength hd
      obtain rfl := Option.some.inj (hspan.symm.trans hs)
      rw [if_neg (stretch_ne_last hij)] at hshows
      exact ⟨_, hs, hshows⟩
    · exact absurd hlast (hnone f hf)

end Faults

/-- What is reported where an expression is read. -/
theorem diagnostics_parseExpression : (parseExpression source file o).2 =
    (lex source (o.fileFor file)).diagnostics ++
      o.diagnose (Goal.rule.read o.levels (lex source (o.fileFor file)).stream).faults := by
  rw [Goal.read]
  cases hread : rule o.levels (lex source (o.fileFor file)).stream with
  | ok e rest =>
    rw [parseExpression_of_ok hread]
    exact (List.append_nil _).symm
  | error f rest => rw [parseExpression_of_error hread, Attempt.orNothing]

theorem rule_faults_isAmong {s : TokenStream} {levels : Nat} :
    ∀ f ∈ (Goal.rule.read levels s).faults, f.IsAmong s.toList := by
  rw [Goal.read]
  cases hread : rule levels s with
  | ok e rest => exact List.forall_mem_nil _
  | error f rest => exact List.forall_mem_singleton.2 (rule_isAmong hread)

end Sources

/-- Every diagnostic about a source text, which is read as a program or as an expression, has a span
in the file of the text. It shows this place, both as a text and as a JSON value, unless that is the
end of the text: the span of the end mark holds no character, and of such a diagnostic nothing tells
the place. So all diagnostics show their places exactly if no fault is found at the end of the
text. -/
theorem diagnostics_placed (source : String) (file : Option String) (o : Options)
    (hlength : source.length < 0x8000000000000000) :
    let stream := (lex source (o.fileFor file)).stream
    let program := parse source file o
    let expression := parseExpression source file o
    (∀ d ∈ program.diagnostics ++ expression.2, ∃ s, d.span = some s ∧ s.file = o.fileFor file ∧
      d.Shows (if s = stream.last.span then none else some s)) ∧
    ((∀ d ∈ program.diagnostics, ∃ s, d.span = some s ∧ d.Shows (some s)) ↔
      ∀ f ∈ program.faults, f.found ≠ stream.last) ∧
    ((∀ d ∈ expression.2, ∃ s, d.span = some s ∧ d.Shows (some s)) ↔
      ∀ f ∈ (Goal.rule.read o.levels stream).faults, f.found ≠ stream.last) := by
  intro stream program expression
  have hprogram : ∀ f ∈ program.faults, f.IsAmong stream.toList := fun f hf =>
    allStatements_isAmong o endsOnce_lex (fun _ => measured_of_mem_lex) hf
  have hrule : ∀ f ∈ (Goal.rule.read o.levels stream).faults, f.IsAmong stream.toList :=
    rule_faults_isAmong
  rw [show expression.2 = _ from diagnostics_parseExpression]
  refine ⟨List.forall_mem_append.2 ⟨fun d hd => ?_, fun d hd => ?_⟩, ?_, ?_⟩
  · exact shows_of_mem hprogram hlength hd
  · exact shows_of_mem hrule hlength hd
  · exact all_show_iff hprogram hlength
  · exact all_show_iff hrule hlength

/-- The second number of `1 2` is reported with its place. -/
theorem diagnostics_placed_second :
    "1 2".length < 0x8000000000000000 ∧ (parse "1 2" none {}).diagnostics.length = 1 ∧
      ∀ d ∈ (parse "1 2" none {}).diagnostics, ∃ s, d.span = some s ∧ d.Shows (some s) := by
  have hfaults : (parse "1 2" none {}).faults = [.unexpected .semicolonAfterExpression
      ⟨.number, "2", ⟨"<string>", 2, 3, 1, 3, 1, 4⟩, .int 2⟩] := by decide +kernel
  refine ⟨by decide, by decide +kernel, ?_⟩
  refine (diagnostics_placed "1 2" none {} (by decide)).2.1.2 ?_
  rw [hfaults, List.forall_mem_singleton]
  decide +kernel

/-- That `(` is not closed is reported with a span, but without its place. -/
theorem place_not_shown : ∃ d s, (parse "(" none {}).diagnostics = [d] ∧ d.span = some s ∧
    d.text = .ok "error: Expected expression (got end of input)" ∧
    d.record = .ok (d.recordAt none) ∧ ¬d.Shows (some s) := by
  have hnone : (Diagnostic.error "Expected expression (got end of input)"
      (some ⟨"<string>", 1, 1, 1, 2, 1, 2⟩) (some "Primary")).Shows none :=
    Diagnostic.shows_of_shownSpan rfl
  exact ⟨_, _, by decide +kernel, rfl, hnone.text, hnone.record,
    fun h => Diagnostic.not_shows_none h hnone⟩

end RuleLang
