import RuleLang.Node.Record
import RuleLang.Proofs.Json.Printable
import RuleLang.Proofs.Node.Aspect
import RuleLang.Proofs.Node.WellFormed
import RuleLang.Text.Terminal

/-!
Trees as JSON values. Every well-formed tree has one (`exists_record`), which depends on the spans
of the tree only as far as spans are shown (`record_mapSpan`): the name of the file is not, and
nothing of them if none are wanted (`record_bare`).
-/
namespace RuleLang

@[simp] theorem Span.Aspect.record_place (s : Span) : (place.of s).record = s.record := rfl

/-- What comes of two steps comes of the second one, after the first one. -/
theorem exists_of_bind_eq_ok {ε α β : Type} {first : Except ε α} {second : α → Except ε β} {b : β}
    (h : first >>= second = .ok b) : ∃ a, first = .ok a ∧ second a = .ok b := by
  cases first with
  | error e => cases h
  | ok a => exact ⟨a, rfl, h⟩

namespace Node

variable (spans : Bool)

/-! ## Existence -/

theorem exists_records {ns : List Node} (h : ∀ n ∈ ns, ∃ r, n.record spans = .ok r) :
    ∃ items, record.records spans ns = .ok items := by
  induction ns with
  | nil => exact ⟨[], rfl⟩
  | cons n ns ih =>
    obtain ⟨⟨r, hr⟩, hns⟩ := List.forall_mem_cons.1 h
    obtain ⟨items, hitems⟩ := ih hns
    simp only [record.records, hr, hitems]
    exact ⟨r :: items, rfl⟩

theorem IsExpression.exists_record {n : Node} (h : n.IsExpression) :
    ∃ r, n.record spans = .ok r := by
  induction h with
  | literal | identifier => exact ⟨_, rfl⟩
  | call h ha ih =>
    obtain ⟨items, hitems⟩ := exists_records spans ih
    simp only [record, hitems]
    exact ⟨_, rfl⟩
  | unary h ho ih =>
    obtain ⟨r, hr⟩ := ih
    simp only [record, hr]
    exact ⟨_, rfl⟩
  | binary h hl hr ihl ihr =>
    obtain ⟨l, hl⟩ := ihl
    obtain ⟨r, hr⟩ := ihr
    simp only [record, hl, hr]
    exact ⟨_, rfl⟩

theorem IsStatement.exists_record {n : Node} (h : n.IsStatement) :
    ∃ r, n.record spans = .ok r := by
  cases h with
  | variableDeclaration h hi =>
    obtain ⟨r, hr⟩ := hi.exists_record spans
    simp only [record, hr]
    exact ⟨_, rfl⟩
  | expressionStatement he =>
    obtain ⟨r, hr⟩ := he.exists_record spans
    simp only [record, hr]
    exact ⟨_, rfl⟩

/-- A program has a JSON value. -/
theorem IsProgram.exists_record {n : Node} (h : n.IsProgram) : ∃ r, n.record spans = .ok r := by
  cases h with
  | program hs =>
    obtain ⟨items, hitems⟩ := exists_records spans fun n hn => (hs n hn).exists_record spans
    simp only [record, hitems]
    exact ⟨_, rfl⟩

/-! ## Places -/

section Records

variable {f : Span → Span}

theorem object_mapSpan (h : spans = true → ∀ s : Span, (f s).record = s.record) (n : Node)
    (fields : List (String × Json)) :
    object spans (n.mapSpan f) fields = object spans n fields := by
  cases spans with
  | false => simp only [object, typeName_mapSpan, Bool.false_eq_true, if_false]
  | true => simp only [object, typeName_mapSpan, span_mapSpan, h rfl]

mutual

/-- What a tree is shown as depends on its spans only as far as they are shown. -/
theorem record_mapSpan (h : spans = true → ∀ s : Span, (f s).record = s.record) (n : Node) :
    (n.mapSpan f).record spans = n.record spans := by
  have hobject := object_mapSpan spans h n
  cases n with
  | program ns s =>
    simp only [mapSpan, record, records_mapSpans h ns] at hobject ⊢
    simp only [hobject]
  | variableDeclaration n i s =>
    simp only [mapSpan, record, record_mapSpan h n, record_mapSpan h i] at hobject ⊢
    simp only [hobject]
  | expressionStatement n s =>
    simp only [mapSpan, record, record_mapSpan h n] at hobject ⊢
    simp only [hobject]
  | call n ns s =>
    simp only [mapSpan, record, record_mapSpan h n, records_mapSpans h ns] at hobject ⊢
    simp only [hobject]
  | unary o n s =>
    simp only [mapSpan, record, record_mapSpan h n] at hobject ⊢
    simp only [hobject]
  | binary o l r s =>
    simp only [mapSpan, record, record_mapSpan h l, record_mapSpan h r] at hobject ⊢
    simp only [hobject]
  | literal | identifier =>
    simp only [mapSpan, record] at hobject ⊢
    simp only [hobject]
  | foreign => rfl

theorem records_mapSpans (h : spans = true → ∀ s : Span, (f s).record = s.record)
    (ns : List Node) :
    record.records spans (mapSpan.mapSpans f ns) = record.records spans ns := by
  cases ns with
  | nil => rfl
  | cons n ns =>
    rw [mapSpan.mapSpans, record.records, record_mapSpan h n, records_mapSpans h ns,
      record.records]

end

end Records

/-- Without spans, a tree is shown in the same way wherever it stands. -/
theorem record_bare (n : Node) : n.bare.record false = n.record false := by
  rw [← mapSpan_noSpan]
  exact record_mapSpan false (fun h => absurd h Bool.false_ne_true) n

theorem record_congr {n m : Node} (h : n.bare = m.bare) : n.record false = m.record false := by
  rw [← record_bare n, h, record_bare m]

end Node

/-- A JSON text has no escape sequences. -/
theorem Json.stripEscapes_line (indent : Option Int) (v : Json) :
    Text.stripEscapes (v.text indent ++ "\n") = v.text indent ++ "\n" := by
  have hmem : '\x1b' ∉ (v.text indent ++ "\n").toList := by
    rw [String.toList_append]
    refine List.not_mem_append (fun h => ?_) (by decide)
    obtain h | h := isLaidOut_of_mem_text indent v _ h
    · exact absurd h (by decide)
    · exact absurd h.1 (by decide)
  rw [Text.stripEscapes, Text.stripFrom_of_not_mem hmem, String.ofList_toList]

end RuleLang
