import RuleLang.Proofs.Json.RoundTrip
import RuleLang.Proofs.Node.Numbers
import RuleLang.Proofs.Node.Shape

/-!
Trees as JSON text. The record of a tree is a JSON value whose objects name no field twice, so its
text is read back as the record (`exists_wellKeyed_record`), and the record tells every part of the
tree but the places (`bare_of_record`). So nothing is lost in the text of a tree (`text_lossless`).
-/
namespace RuleLang

/-! ## Names of fields -/

theorem Span.wellKeyed_record (s : Span) : s.record.WellKeyed := by
  have distinct : ["start", "end", "line", "column", "end_line", "end_column"].Nodup := by decide
  refine .object distinct ?_
  simp only [List.forall_mem_cons]
  exact ⟨.scalar (.int _), .scalar (.int _), .scalar (.int _), .scalar (.int _), .scalar (.int _),
    .scalar (.int _), List.forall_mem_nil _⟩

namespace Node

/-- All parts of the tree are nodes. -/
def AllKnown (n : Node) : Prop := ∀ m, Part m n → m.isForeign = false

theorem AllKnown.child {n c : Node} (h : n.AllKnown) (hc : c ∈ n.children) : c.AllKnown :=
  fun m hm => h m (.child hc hm)

/-- A walk that is not ended has met nodes only. -/
theorem allKnown_of_walk {n : Node} (h : n.walk.stop = none) : n.AllKnown := by
  intro m hm
  induction hm with
  | self =>
    cases m with
    | foreign => cases h
    | _ => rfl
  | child hc _ ih => exact ih (children_unended h _ hc)

section Records

variable (spans : Bool)

/-- The names of the fields of a node, but for its type and its place. -/
def fieldNames : Node → List String
  | .program .. => ["statements"]
  | .variableDeclaration .. => ["name", "initializer"]
  | .expressionStatement .. => ["expression"]
  | .literal .. => ["kind", "value"]
  | .identifier .. => ["name"]
  | .call .. => ["callee", "arguments"]
  | .unary .. => ["operator", "operand"]
  | .binary .. => ["operator", "left", "right"]
  | .foreign .. => []

theorem nodup_fieldNames (n : Node) : ("type" :: n.fieldNames ++ ["span"]).Nodup := by
  cases n <;> simp [fieldNames]

section Entries

variable {n : Node} {items : List Json} (h : items.length = n.children.length)
include h

theorem names_entries : (n.entries items).map Prod.fst = n.fieldNames := by
  cases n with
  | expressionStatement | unary =>
    obtain ⟨r, rfl⟩ := List.length_eq_one_iff.1 h
    rfl
  | variableDeclaration | binary =>
    obtain ⟨l, r, rfl⟩ := List.length_eq_two.1 h
    rfl
  | call =>
    obtain ⟨r, items, rfl⟩ := List.exists_cons_of_length_eq_add_one h
    rfl
  | _ => rfl

/-- The fields of a node hold scalars, records of its children, or an array of these. -/
theorem wellKeyed_entries (hitems : ∀ v ∈ items, v.WellKeyed) :
    ∀ field ∈ n.entries items, field.2.WellKeyed := by
  cases n with
  | program => exact List.forall_mem_singleton.2 (.array hitems)
  | identifier name => exact List.forall_mem_singleton.2 (.scalar (.text name))
  | foreign => exact List.forall_mem_nil _
  | literal value =>
    exact List.forall_mem_cons.2
      ⟨.scalar (.text value.literalKind), List.forall_mem_singleton.2 (.scalar value)⟩
  | expressionStatement =>
    obtain ⟨r, rfl⟩ := List.length_eq_one_iff.1 h
    simpa [entries] using hitems
  | variableDeclaration =>
    obtain ⟨l, r, rfl⟩ := List.length_eq_two.1 h
    simpa [entries] using hitems
  | unary operator =>
    obtain ⟨r, rfl⟩ := List.length_eq_one_iff.1 h
    exact List.forall_mem_cons.2 ⟨.scalar (.text operator), by simpa using hitems⟩
  | binary operator =>
    obtain ⟨l, r, rfl⟩ := List.length_eq_two.1 h
    exact List.forall_mem_cons.2 ⟨.scalar (.text operator), by simpa using hitems⟩
  | call =>
    obtain ⟨r, items, rfl⟩ := List.exists_cons_of_length_eq_add_one h
    obtain ⟨hr, hitems⟩ := List.forall_mem_cons.1 hitems
    exact List.forall_mem_cons.2 ⟨hr, List.forall_mem_singleton.2 (.array hitems)⟩

theorem wellKeyed_object (hitems : ∀ v ∈ items, v.WellKeyed) :
    (object spans n (n.entries items)).WellKeyed := by
  have hnames := names_entries h
  have hfields := wellKeyed_entries h hitems
  have distinct := n.nodup_fieldNames
  rw [← hnames] at distinct
  cases spans with
  | true =>
    refine .object (by simpa using distinct) ?_
    simp only [List.forall_mem_append, List.forall_mem_cons, if_true]
    exact ⟨⟨.scalar (.text n.typeName), hfields⟩, n.span.wellKeyed_record, List.forall_mem_nil _⟩
  | false =>
    refine .object ?_ ?_
    · simpa using (List.nodup_append.1 distinct).1
    · simp only [List.forall_mem_append, List.forall_mem_cons, Bool.false_eq_true, if_false]
      exact ⟨⟨.scalar (.text n.typeName), hfields⟩, List.forall_mem_nil _⟩

end Entries

theorem exists_wellKeyed_records {ns : List Node}
    (h : ∀ n ∈ ns, ∃ j, n.record spans = .ok j ∧ j.WellKeyed) :
    ∃ items, record.records spans ns = .ok items ∧ ∀ v ∈ items, v.WellKeyed := by
  induction ns with
  | nil => exact ⟨[], rfl, List.forall_mem_nil _⟩
  | cons n ns ih =>
    obtain ⟨⟨j, hj, hkeyed⟩, hns⟩ := List.forall_mem_cons.1 h
    obtain ⟨items, hitems, hkeyedItems⟩ := ih hns
    rw [records_cons, hj, hitems]
    exact ⟨j :: items, rfl, List.forall_mem_cons.2 ⟨hkeyed, hkeyedItems⟩⟩

/-- A tree of nodes has a record, whose objects name no field twice. -/
theorem AllKnown.exists_record {n : Node} (h : n.AllKnown) :
    ∃ j, n.record spans = .ok j ∧ j.WellKeyed := by
  induction n using children_induction with
  | step n ih =>
    obtain ⟨items, hitems, hkeyed⟩ :=
      exists_wellKeyed_records spans fun c hc => ih c hc (h.child hc)
    rw [record_of_known spans (h n .self), hitems]
    exact ⟨_, rfl, wellKeyed_object spans (length_of_records spans hitems) hkeyed⟩

end Records

/-! ## What a record tells -/

theorem ofScalar_inj {v w : Scalar} (h : Json.ofScalar v = .ofScalar w) : v = w := by
  cases v <;> cases w <;> simp_all [Json.ofScalar]

/-- Nodes of the same type with the same fields differ in their children and places only. -/
theorem eq_of_entries {n m : Node} (hn : n.isForeign = false) (hm : m.isForeign = false)
    (htype : n.typeName = m.typeName) {items others : List Json}
    (hitems : items.length = n.children.length) (hothers : others.length = m.children.length)
    (hentries : n.entries items = m.entries others) :
    items = others ∧ (n.children.map bare = m.children.map bare → n.bare = m.bare) := by
  cases n with
  | program =>
    cases m with
    | program => simpa [entries, bare, bares_eq_map, children] using hentries
    | foreign => cases hm
    | _ => simp [typeName] at htype
  | literal v =>
    cases m with
    | literal w =>
      obtain rfl := List.length_eq_zero_iff.1 hitems
      obtain rfl := List.length_eq_zero_iff.1 hothers
      simp only [entries, List.cons.injEq, Prod.mk.injEq, true_and, and_true] at hentries
      rw [ofScalar_inj hentries.2]
      exact ⟨rfl, fun _ => rfl⟩
    | foreign => cases hm
    | _ => simp [typeName] at htype
  | identifier name =>
    cases m with
    | identifier name' =>
      obtain rfl := List.length_eq_zero_iff.1 hitems
      obtain rfl := List.length_eq_zero_iff.1 hothers
      refine ⟨rfl, fun _ => ?_⟩
      simpa [entries, bare] using hentries
    | foreign => cases hm
    | _ => simp [typeName] at htype
  | expressionStatement =>
    cases m with
    | expressionStatement =>
      obtain ⟨r, rfl⟩ := List.length_eq_one_iff.1 hitems
      obtain ⟨r', rfl⟩ := List.length_eq_one_iff.1 hothers
      simpa [entries, bare, children] using hentries
    | foreign => cases hm
    | _ => simp [typeName] at htype
  | unary operator =>
    cases m with
    | unary operator' =>
      obtain ⟨r, rfl⟩ := List.length_eq_one_iff.1 hitems
      obtain ⟨r', rfl⟩ := List.length_eq_one_iff.1 hothers
      simp only [entries, List.zip_cons_cons, List.zip_nil_left, List.cons.injEq, Prod.mk.injEq,
        true_and, and_true, Json.string.injEq] at hentries
      simp [bare, children, hentries]
    | foreign => cases hm
    | _ => simp [typeName] at htype
  | variableDeclaration =>
    cases m with
    | variableDeclaration =>
      obtain ⟨l, r, rfl⟩ := List.length_eq_two.1 hitems
      obtain ⟨l', r', rfl⟩ := List.length_eq_two.1 hothers
      simpa [entries, bare, children] using hentries
    | foreign => cases hm
    | _ => simp [typeName] at htype
  | binary operator =>
    cases m with
    | binary operator' =>
      obtain ⟨l, r, rfl⟩ := List.length_eq_two.1 hitems
      obtain ⟨l', r', rfl⟩ := List.length_eq_two.1 hothers
      simp only [entries, List.zip_cons_cons, List.zip_nil_left, List.cons.injEq, Prod.mk.injEq,
        true_and, and_true, Json.string.injEq] at hentries
      simp [bare, children, hentries]
    | foreign => cases hm
    | _ => simp [typeName] at htype
  | call =>
    cases m with
    | call =>
      obtain ⟨r, items, rfl⟩ := List.exists_cons_of_length_eq_add_one hitems
      obtain ⟨r', others, rfl⟩ := List.exists_cons_of_length_eq_add_one hothers
      simpa [entries, bare, children, bares_eq_map] using hentries
    | foreign => cases hm
    | _ => simp [typeName] at htype
  | foreign => cases hn

theorem object_inj {n m : Node} {fields others : List (String × Json)}
    (h : object false n fields = object false m others) :
    n.typeName = m.typeName ∧ fields = others := by
  simpa [object] using h

theorem records_of_cons {n : Node} {ns : List Node} {items : List Json}
    (h : record.records false (n :: ns) = .ok items) : ∃ j others, items = j :: others ∧
      n.record false = .ok j ∧ record.records false ns = .ok others := by
  rw [records_cons] at h
  obtain ⟨j, hj, h⟩ := exists_of_bind_eq_ok h
  obtain ⟨others, hothers, h⟩ := exists_of_bind_eq_ok h
  exact ⟨j, others, (Except.ok.inj h).symm, hj, hothers⟩

theorem bares_of_records {ns ms : List Node} {items : List Json}
    (h : ∀ n ∈ ns, ∀ (m : Node) (j : Json), n.record false = .ok j → m.record false = .ok j →
      n.bare = m.bare)
    (hns : record.records false ns = .ok items) (hms : record.records false ms = .ok items) :
    ns.map bare = ms.map bare := by
  induction ns generalizing ms items with
  | nil =>
    cases hns
    rw [List.length_eq_zero_iff.1 (length_of_records false hms).symm]
  | cons n ns ih =>
    obtain ⟨hn, hrest⟩ := List.forall_mem_cons.1 h
    obtain ⟨j, others, rfl, hj, hothers⟩ := records_of_cons hns
    obtain ⟨m, ms, rfl⟩ := List.exists_cons_of_length_eq_add_one (length_of_records false hms).symm
    obtain ⟨j', others', heq, hj', hothers'⟩ := records_of_cons hms
    obtain ⟨rfl, rfl⟩ := List.cons_eq_cons.1 heq
    rw [List.map_cons, List.map_cons, hn m j hj hj', ih hrest hothers hothers']

/-- The records of trees tell the trees, but for their places. -/
theorem bare_of_record {n m : Node} {j : Json} (hn : n.record false = .ok j)
    (hm : m.record false = .ok j) : n.bare = m.bare := by
  induction n using children_induction generalizing m j with
  | step n ih =>
    obtain ⟨hknown, items, hitems, hobject⟩ := exists_of_record false hn
    obtain ⟨hknown', others, hothers, hobject'⟩ := exists_of_record false hm
    obtain ⟨htype, hentries⟩ := object_inj (hobject.symm.trans hobject')
    obtain ⟨rfl, hbare⟩ := eq_of_entries hknown hknown' htype
      (length_of_records false hitems) (length_of_records false hothers) hentries
    exact hbare (bares_of_records (fun c hc m j => ih c hc) hitems hothers)

/-! ## Texts -/

/-- Trees of nodes have the same text without spans exactly if they are of the same shape. -/
theorem map_text_iff {n m : Node} (hn : n.AllKnown) (hm : m.AllKnown) (indent : Option Int) :
    (n.record false).map (Json.text indent) = (m.record false).map (Json.text indent) ↔
      n.sameShape m = true := by
  rw [Node.sameShape_iff]
  constructor
  · intro htext
    obtain ⟨j, hj, hkeyed⟩ := hn.exists_record false
    obtain ⟨j', hj', hkeyed'⟩ := hm.exists_record false
    rw [hj, hj'] at htext
    have hread := Json.read?_text hkeyed indent
    rw [Except.ok.inj htext, Json.read?_text hkeyed' indent] at hread
    obtain rfl := Option.some.inj hread
    exact Node.bare_of_record hj hj'
  · intro hbare
    rw [Node.record_congr hbare]

theorem map_text_of_dump {n : Node} {spans : Bool} {indent : Option Int} {text : String}
    (h : n.dump spans indent = .ok text) : (n.record spans).map (Json.text indent) = .ok text := by
  rw [dump] at h
  split at h
  · cases h
  · rename_i v hv
    split at h
    · cases h
      rw [hv]
      rfl
    · cases h

theorem dump_congr {n m : Node} (h : n.bare = m.bare) (indent : Option Int) :
    n.dump false indent = m.dump false indent := by
  rw [dump, dump, Node.record_congr h]

/-- The JSON text of a tree of nodes loses nothing. It holds printable ASCII characters and the line
feeds of its indentation, and it is read back as the record of the tree, with its fields in their
order; there is none only if a literal or, where places are shown, a place has a number with too
many digits. So two trees have the same text, without spans and with the same indentation, only if
they are of the same shape, with the same values in their literals. -/
theorem text_lossless (n : Node) (hn : n.AllKnown) :
    (∀ (spans : Bool) (indent : Option Int), ∃ j, n.record spans = .ok j ∧
      (∀ c ∈ (j.text indent).toList, Json.IsVisible c ∨ c = '\n' ∧ indent.isSome = true) ∧
      Json.read? (j.text indent) = some j ∧
      (n.ShowsTooLong spans → n.dump spans indent = .error .unwritable) ∧
      (¬n.ShowsTooLong spans → n.dump spans indent = .ok (j.text indent))) ∧
    ∀ (m : Node) (indent : Option Int), m.AllKnown →
      ((n.record false).map (Json.text indent) = (m.record false).map (Json.text indent) ↔
        n.sameShape m = true) ∧
      ∀ text, n.dump false indent = .ok text →
        (m.dump false indent = .ok text ↔ n.sameShape m = true) := by
  constructor
  · intro spans indent
    obtain ⟨j, hj, hkeyed⟩ := hn.exists_record spans
    exact ⟨j, hj, Json.isLaidOut_of_mem_text indent j, Json.read?_text hkeyed indent,
      dump_eq indent hj⟩
  · intro m indent hm
    have hsame := map_text_iff hn hm indent
    refine ⟨hsame, fun text htext => ⟨fun htext' => hsame.1 ?_, fun hshape => ?_⟩⟩
    · rw [map_text_of_dump htext, map_text_of_dump htext']
    · rw [← dump_congr ((Node.sameShape_iff _ _).1 hshape) indent, htext]

/-- A call with the integer 2 and one with the double 2 have different texts. -/
theorem text_lossless_two :
    (call (.identifier "f" noSpan) [.literal (.int 2) noSpan] noSpan).AllKnown ∧
    (call (.identifier "f" noSpan)
      [.literal (.float (.ofDecimal false ⟨2, 0⟩)) noSpan] noSpan).AllKnown ∧
    ((call (.identifier "f" noSpan) [.literal (.int 2) noSpan] noSpan).record false).map
      (Json.text none) ≠
    ((call (.identifier "f" noSpan)
      [.literal (.float (.ofDecimal false ⟨2, 0⟩)) noSpan] noSpan).record false).map
      (Json.text none) := by
  refine ⟨allKnown_of_walk rfl, allKnown_of_walk rfl, fun heq => ?_⟩
  have hshape :=
    ((text_lossless _ (allKnown_of_walk rfl)).2 _ none (allKnown_of_walk rfl)).1.1 heq
  exact absurd hshape (by decide +kernel)

end Node

end RuleLang
