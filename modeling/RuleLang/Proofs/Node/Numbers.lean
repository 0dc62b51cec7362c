import RuleLang.Proofs.Node.Traversal

/-!
The numbers in the JSON value of a tree. They are those of literals and, where places are shown,
those of places (`holds_record_iff`). So a tree has a JSON text exactly if none of these has too
many digits (`dump_eq`).
-/
namespace RuleLang

/-! ## JSON values -/

namespace Json

/-- The number is one of those that a JSON value is written with. -/
inductive Holds (x : Number) : Json → Prop where
  | number : Holds x (.number x)
  | item {items : List Json} {v : Json} (hv : v ∈ items) (h : Holds x v) : Holds x (.array items)
  | field {fields : List (String × Json)} {name : String} {v : Json} (hv : (name, v) ∈ fields)
      (h : Holds x v) : Holds x (.object fields)

variable {x : Number}

@[simp] theorem not_holds_string (s : String) : ¬(string s).Holds x := nofun

@[simp] theorem holds_array_iff {items : List Json} :
    (array items).Holds x ↔ ∃ v ∈ items, v.Holds x := by
  constructor
  · rintro ⟨⟩
    exact ⟨_, ‹_›, ‹_›⟩
  · rintro ⟨v, hv, hx⟩
    exact .item hv hx

theorem holds_object_iff {fields : List (String × Json)} :
    (object fields).Holds x ↔ ∃ f ∈ fields, f.2.Holds x := by
  constructor
  · rintro ⟨⟩
    exact ⟨_, ‹_›, ‹_›⟩
  · rintro ⟨⟨name, v⟩, hv, hx⟩
    exact .field hv hx

@[simp] theorem holds_ofScalar_iff {value : Scalar} :
    (ofScalar value).Holds x ↔ value = .number x := by
  constructor
  · intro h
    cases value <;> cases h
    rfl
  · rintro rfl
    exact .number

mutual

theorem isWritable_iff (v : Json) :
    v.isWritable = true ↔ ∀ x, v.Holds x → x.isWritable = true := by
  cases v with
  | null | bool | string => exact iff_of_true rfl nofun
  | number y =>
    refine ⟨fun h x hx => ?_, fun h => h y .number⟩
    cases hx
    exact h
  | array items =>
    simp only [isWritable, areWritable_iff items, holds_array_iff, forall_exists_index, and_imp]
    exact ⟨fun h x v hv => h v hv x, fun h v hv x => h x v hv⟩
  | object fields =>
    simp only [isWritable, fieldsAreWritable_iff fields, holds_object_iff, forall_exists_index,
      and_imp]
    exact ⟨fun h x f hf => h f hf x, fun h f hf x => h x f hf⟩

theorem areWritable_iff (items : List Json) :
    isWritable.areWritable items = true ↔
      ∀ v ∈ items, ∀ x, v.Holds x → x.isWritable = true := by
  cases items with
  | nil => exact iff_of_true rfl (List.forall_mem_nil _)
  | cons v items =>
    rw [isWritable.areWritable, Bool.and_eq_true, isWritable_iff v, areWritable_iff items,
      List.forall_mem_cons]

theorem fieldsAreWritable_iff (fields : List (String × Json)) :
    isWritable.fieldsAreWritable fields = true ↔
      ∀ f ∈ fields, ∀ x, f.2.Holds x → x.isWritable = true := by
  cases fields with
  | nil => exact iff_of_true rfl (List.forall_mem_nil _)
  | cons field fields =>
    obtain ⟨name, v⟩ := field
    rw [isWritable.fieldsAreWritable, Bool.and_eq_true, isWritable_iff v,
      fieldsAreWritable_iff fields, List.forall_mem_cons]

end

end Json

namespace Node

variable {spans : Bool} {x : Number}

/-! ## Trees -/

/-- The number is shown for the node itself: as its value, or as a part of its place. -/
def Shows (spans : Bool) (x : Number) (n : Node) : Prop :=
  (∃ span, n = .literal (.number x) span) ∨ spans = true ∧ n.span.record.Holds x

theorem holds_object_iff {n : Node} {fields : List (String × Json)} :
    (object spans n fields).Holds x ↔
      (∃ f ∈ fields, f.2.Holds x) ∨ spans = true ∧ n.span.record.Holds x := by
  cases spans <;> simp [object, Json.holds_object_iff, or_and_right, exists_or]

/-- The numbers in the fields of a node: its own, and those in the records of its children. -/
theorem holds_entries_iff {n : Node} {items : List Json} (h : items.length = n.children.length) :
    (∃ f ∈ n.entries items, f.2.Holds x) ↔
      (∃ span, n = .literal (.number x) span) ∨ ∃ v ∈ items, v.Holds x := by
  cases n with
  | program => simp [entries]
  | literal | identifier | foreign =>
    obtain rfl := List.length_eq_zero_iff.1 h
    simp [entries]
  | expressionStatement | unary =>
    obtain ⟨r, rfl⟩ := List.length_eq_one_iff.1 h
    simp [entries]
  | variableDeclaration | binary =>
    obtain ⟨l, r, rfl⟩ := List.length_eq_two.1 h
    simp [entries]
  | call =>
    obtain ⟨r, items, rfl⟩ := List.exists_cons_of_length_eq_add_one h
    simp [entries]

theorem mem_records_iff {ns : List Node} {items : List Json}
    (h : record.records spans ns = .ok items) {v : Json} :
    v ∈ items ↔ ∃ n ∈ ns, n.record spans = .ok v := by
  induction ns generalizing items with
  | nil =>
    cases h
    simp
  | cons n ns ih =>
    rw [records_cons] at h
    obtain ⟨first, hfirst, h⟩ := exists_of_bind_eq_ok h
    obtain ⟨others, hothers, h⟩ := exists_of_bind_eq_ok h
    cases h
    rw [List.mem_cons, ih hothers, List.exists_mem_cons_iff, hfirst, Except.ok.injEq, eq_comm]

theorem exists_of_mem_records {ns : List Node} {items : List Json}
    (h : record.records spans ns = .ok items) {n : Node} (hn : n ∈ ns) :
    ∃ v, n.record spans = .ok v := by
  induction ns generalizing items with
  | nil => cases hn
  | cons first ns ih =>
    rw [records_cons] at h
    obtain ⟨v, hv, h⟩ := exists_of_bind_eq_ok h
    obtain ⟨others, hothers, -⟩ := exists_of_bind_eq_ok h
    obtain rfl | hn := List.mem_cons.1 hn
    · exact ⟨v, hv⟩
    · exact ih hothers hn

/-- A number in the record of a node is shown for the node itself or for a tree below it. -/
theorem holds_record_step {n : Node} {v : Json} (h : n.record spans = .ok v) :
    v.Holds x ↔
      n.Shows spans x ∨ ∃ c ∈ n.children, ∃ w, c.record spans = .ok w ∧ w.Holds x := by
  obtain ⟨-, items, hitems, rfl⟩ := exists_of_record spans h
  have hbelow : (∃ v ∈ items, v.Holds x) ↔
      ∃ c ∈ n.children, ∃ w, c.record spans = .ok w ∧ w.Holds x := by
    simp only [mem_records_iff hitems]
    exact ⟨fun ⟨w, ⟨c, hc, hw⟩, hx⟩ => ⟨c, hc, w, hw, hx⟩,
      fun ⟨c, hc, w, hw, hx⟩ => ⟨w, ⟨c, hc, hw⟩, hx⟩⟩
  rw [holds_object_iff, holds_entries_iff (length_of_records spans hitems), hbelow, Shows,
    or_right_comm]

/-- The numbers in the record of a tree are those that are shown for its parts. -/
theorem holds_record_iff {n : Node} {v : Json} (h : n.record spans = .ok v) :
    v.Holds x ↔ ∃ m : Node, m.Part n ∧ m.Shows spans x := by
  constructor
  · intro hx
    induction n using children_induction generalizing v with
    | step n ih =>
      obtain hn | ⟨c, hc, w, hw, hx⟩ := (holds_record_step h).1 hx
      · exact ⟨n, .self, hn⟩
      · obtain ⟨m, hm, hshows⟩ := ih c hc hw hx
        exact ⟨m, .child hc hm, hshows⟩
  · rintro ⟨m, hm, hshows⟩
    induction hm generalizing v with
    | self => exact (holds_record_step h).2 (.inl hshows)
    | @child n c hc _ ih =>
      obtain ⟨-, items, hitems, -⟩ := exists_of_record spans h
      obtain ⟨w, hw⟩ := exists_of_mem_records hitems hc
      exact (holds_record_step h).2 (.inr ⟨c, hc, w, hw, ih hw⟩)

/-! ## Texts -/

/-- A number that is shown for a tree has too many digits to be written. -/
def ShowsTooLong (spans : Bool) (n : Node) : Prop :=
  ∃ m z, Part m n ∧ m.Shows spans (.int z) ∧ Number.IsTooLong z

theorem isWritable_record_iff {n : Node} {v : Json} (h : n.record spans = .ok v) :
    v.isWritable = true ↔ ¬n.ShowsTooLong spans := by
  rw [Json.isWritable_iff]
  constructor
  · rintro hall ⟨m, z, hm, hshows, hlong⟩
    have hwritable := hall _ ((holds_record_iff h).2 ⟨m, hm, hshows⟩)
    rw [Number.isWritable_int.2 hlong] at hwritable
    cases hwritable
  · intro hnone x hx
    obtain ⟨m, hm, hshows⟩ := (holds_record_iff h).1 hx
    cases x with
    | float => rfl
    | int z =>
      exact Bool.not_eq_false _ ▸ fun hlong =>
        hnone ⟨m, z, hm, hshows, Number.isWritable_int.1 hlong⟩

section Dumps

variable (indent : Option Int) {n : Node} {v : Json} (h : n.record spans = .ok v)
include h

theorem dump_of_writable (hwritable : v.isWritable = true) :
    n.dump spans indent = .ok (v.text indent) := by
  rw [dump, h]
  exact if_pos hwritable

/-- A tree with a record has a JSON text unless a number in it has too many digits. -/
theorem dump_eq :
    (n.ShowsTooLong spans → n.dump spans indent = .error .unwritable) ∧
      (¬n.ShowsTooLong spans → n.dump spans indent = .ok (v.text indent)) := by
  have hiff := isWritable_record_iff h
  refine ⟨fun hlong => ?_, fun hshort => dump_of_writable indent h (hiff.2 hshort)⟩
  rw [dump, h]
  exact if_neg fun hwritable => hiff.1 hwritable hlong

end Dumps

end Node

end RuleLang
