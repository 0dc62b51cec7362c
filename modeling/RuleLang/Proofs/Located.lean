import RuleLang.Proofs.Extents
import RuleLang.Proofs.Grammar.Statements

/-!
Where diagnostics stand. Whatever is reported about a source text is about a stretch of it
(`isLocated_lex`, `isLocated_parse`), so that it can be written out if the length of the text fits
into a signed 64-bit word (`exists_text`).
-/
namespace RuleLang

open Grammar

/-- The diagnostic is about a stretch of a text. -/
def Diagnostic.IsLocated (file : String) (text : List Char) (d : Diagnostic) : Prop :=
  ∃ i j, i ≤ j ∧ j ≤ text.length ∧ d.span = some (.stretch file text i j)

theorem Span.length_stretch {file : String} {text : List Char} {i j : Nat} (hij : i ≤ j)
    (hj : j < 0x8000000000000000) : (stretch file text i j).length = .ok (j - i) := by
  have hstart : (stretch file text i j).start = i := rfl
  have hstop : (stretch file text i j).stop = j := rfl
  rw [length, hstart, hstop, if_neg (by omega), if_neg (by omega)]
  congr 1
  omega

/-- What is reported about a text that is not too long can be written out. -/
theorem Diagnostic.IsLocated.exists_text {file : String} {text : List Char} {d : Diagnostic}
    (h : d.IsLocated file text) (hlength : text.length < 0x8000000000000000) :
    ∃ line, d.text = .ok line := by
  obtain ⟨i, j, hij, hj, hspan⟩ := h
  obtain ⟨empty, hempty⟩ : ∃ empty, (Span.stretch file text i j).isEmpty = .ok empty :=
    ⟨_, by rw [Span.isEmpty, Span.length_stretch hij (by omega)]⟩
  cases empty <;> simp [Diagnostic.text, shownSpan, hspan, hempty]

section Sources

variable {source : String} {d : Diagnostic}

theorem isLocated_lex {file : String} (h : d ∈ (lex source file).diagnostics) :
    d.IsLocated file source.toList := by
  obtain ⟨⟨p, w⟩, hmem, hd⟩ := List.mem_flatMap.1 h
  exact stretch_of_mem_diagnostics hmem hd

theorem stretch_of_mem_toList {file : String} {t : Token}
    (h : t ∈ (lex source file).stream.toList) : ∃ i j, i ≤ j ∧ j ≤ source.toList.length ∧
      t.span = .stretch file source.toList i j := by
  obtain h | h := List.mem_append.1 h
  · obtain ⟨i, j, hij, hj, hspan⟩ := exists_stretch h
    exact ⟨i, j, Nat.le_of_lt hij, hj, hspan⟩
  · obtain rfl := List.mem_singleton.1 h
    refine ⟨_, _, Nat.le_refl _, Nat.le_refl _, ?_⟩
    rw [← Span.between_prefixes file List.prefix_rfl List.prefix_rfl]
    rfl

theorem found_mem {ts : List Token} {f : Fault} (h : f.IsAmong ts) : f.found ∈ ts := by
  cases f with
  | unexpected | tooDeep => exact h
  | unmeasured => exact h.elim

/-- What is reported about a fault is about the token where it was found. -/
theorem span_of_diagnostic? {f : Fault} {limit : Number} (h : f.diagnostic? limit = some d) :
    d.span = some f.found.span := by
  cases f with
  | unexpected error t =>
    simp only [Fault.diagnostic?, Option.ite_none_left_eq_some, Option.some.injEq] at h
    rw [← h.2]
    rfl
  | tooDeep t =>
    rw [← Option.some.inj h]
    rfl
  | unmeasured error t => cases h

theorem isLocated_parse {file : Option String} {o : Options}
    (h : d ∈ (parse source file o).diagnostics) :
    d.IsLocated (o.fileFor file) source.toList := by
  obtain h | h := List.mem_append.1 h
  · exact isLocated_lex h
  · obtain ⟨f, hf, hd⟩ := List.mem_filterMap.1 h
    have hamong := allStatements_isAmong o endsOnce_lex (fun _ => measured_of_mem_lex) hf
    obtain ⟨i, j, hij, hj, hspan⟩ := stretch_of_mem_toList (found_mem hamong)
    exact ⟨i, j, hij, hj, (span_of_diagnostic? hd).trans (congrArg some hspan)⟩

end Sources

section Texts

variable {ds : List Diagnostic}

theorem exists_texts (h : ∀ d ∈ ds, ∃ line, d.text = .ok line) :
    ∃ texts, ds.mapM Diagnostic.text = .ok texts := by
  induction ds with
  | nil => exact ⟨[], rfl⟩
  | cons d ds ih =>
    obtain ⟨⟨line, hline⟩, hds⟩ := List.forall_mem_cons.1 h
    obtain ⟨texts, htexts⟩ := ih hds
    refine ⟨line :: texts, ?_⟩
    rw [List.mapM_cons, hline, htexts]
    rfl

/-- Diagnostics that are written out have one text each. -/
theorem forall₂_text {texts : List String} (h : ds.mapM Diagnostic.text = .ok texts) :
    List.Forall₂ (fun d line => d.text = .ok line) ds texts := by
  induction ds generalizing texts with
  | nil =>
    cases h
    exact .nil
  | cons d ds ih =>
    rw [List.mapM_cons] at h
    cases hline : d.text with
    | error e =>
      rw [hline] at h
      cases h
    | ok line =>
      cases hlines : ds.mapM Diagnostic.text with
      | error e =>
        rw [hline, hlines] at h
        cases h
      | ok lines =>
        rw [hline, hlines] at h
        cases h
        exact .cons hline (ih hlines)

end Texts

end RuleLang
