import Mathlib.Data.List.Basic
import RuleLang.Proofs.Node.Parts
import RuleLang.Proofs.Node.Records

/-!
Two ways through a tree. A walk and a JSON value are made by recursion on the tree, each with its
own cases. Both follow the nodes of the tree in preorder, up to the first part that is no node
(`walk_eq_through`, `record_eq_fault`, `types_record`), so they agree on the types of the nodes and
on where they stop (`walk_record_agree`).
-/
namespace RuleLang

/-! ## Types in JSON values -/

namespace Json

/-- The text that a JSON value is, if it is one. -/
def text? : Json → Option String
  | .string s => some s
  | _ => none

/-- The types that objects name in a JSON value, each object in front of what its fields hold. -/
def types : Json → List String
  | .null => []
  | .bool _ => []
  | .number _ => []
  | .string _ => []
  | .array items => typesOfItems items
  | .object fields => typesOfFields fields
where
  typesOfItems : List Json → List String
    | [] => []
    | v :: items => types v ++ typesOfItems items
  typesOfFields : List (String × Json) → List String
    | [] => []
    | (name, v) :: fields =>
      (if name = "type" then v.text?.toList else types v) ++ typesOfFields fields

theorem typesOfItems_eq_flatMap (items : List Json) :
    types.typesOfItems items = items.flatMap types := by
  induction items with
  | nil => rfl
  | cons v items ih => rw [types.typesOfItems, ih, List.flatMap_cons]

theorem typesOfFields_append (fields others : List (String × Json)) :
    types.typesOfFields (fields ++ others) =
      types.typesOfFields fields ++ types.typesOfFields others := by
  induction fields with
  | nil => rfl
  | cons field fields ih =>
    obtain ⟨name, v⟩ := field
    simp only [List.cons_append, types.typesOfFields, ih, List.append_assoc]

end Json

namespace Node

/-! ## Preorder -/

/-- The parts of a tree, each in front of those of its children, these from left to right. -/
def preorder (n : Node) : List Node :=
  n :: n.children.attach.flatMap fun c => preorder c.1
termination_by sizeOf n
decreasing_by exact sizeOf_lt_of_mem_children c.2

theorem preorder_eq (n : Node) : n.preorder = n :: n.children.flatMap preorder := by
  rw [preorder, List.flatMap_subtype fun _ _ => rfl, List.unattach_attach]

/-- The type of a node; what is no node has none. -/
def type (n : Node) : Except UnknownNode String :=
  if n.isForeign then .error ⟨n.typeName⟩ else .ok n.typeName

end Node

/-! ## Walks -/

namespace Walk

/-- The walk along a list of parts, which ends at the first one that is no node. -/
def along : List Node → Walk
  | [] => nil
  | n :: ns => if n.isForeign then ⟨[n], some ⟨n.typeName⟩⟩ else visit n ++ along ns

/-- The types of the nodes that were visited, unless the walk was ended. -/
def types (w : Walk) : Except UnknownNode (List String) :=
  match w.stop with
  | none => .ok (w.visited.map Node.typeName)
  | some e => .error e

theorem nil_append (w : Walk) : nil ++ w = w := rfl

theorem append_of_ended {v : Walk} {e : UnknownNode} (h : v.stop = some e) (w : Walk) :
    v ++ w = v := by
  change v.append w = v
  obtain ⟨visited, stop⟩ := v
  obtain rfl : stop = some e := h
  rfl

theorem along_append (ns ms : List Node) : along (ns ++ ms) = along ns ++ along ms := by
  induction ns with
  | nil => exact (nil_append _).symm
  | cons n ns ih =>
    rw [List.cons_append, along, along]
    split
    · exact (append_of_ended rfl _).symm
    · rw [ih, append_assoc]

/-- A walk along a list goes through all of it, or up to the first part that is no node. -/
theorem along_cases (ns : List Node) :
    (∀ n ∈ ns, n.isForeign = false) ∧ along ns = ⟨ns, none⟩ ∨
    ∃ before m behind, ns = before ++ m :: behind ∧ (∀ n ∈ before, n.isForeign = false) ∧
      m.isForeign = true ∧ along ns = ⟨before ++ [m], some ⟨m.typeName⟩⟩ := by
  induction ns with
  | nil => exact .inl ⟨List.forall_mem_nil _, rfl⟩
  | cons n ns ih =>
    rw [along]
    cases hn : n.isForeign with
    | true => exact .inr ⟨[], n, ns, rfl, List.forall_mem_nil _, hn, rfl⟩
    | false =>
      obtain ⟨hknown, hwalk⟩ | ⟨before, m, behind, rfl, hbefore, hm, hwalk⟩ := ih
      · refine .inl ⟨List.forall_mem_cons.2 ⟨hn, hknown⟩, ?_⟩
        rw [hwalk]
        rfl
      · refine .inr ⟨n :: before, m, behind, rfl, List.forall_mem_cons.2 ⟨hn, hbefore⟩, hm, ?_⟩
        rw [hwalk]
        rfl

/-- The types along a list are those of its nodes, one by one. -/
theorem types_along (ns : List Node) : (along ns).types = ns.mapM Node.type := by
  induction ns with
  | nil => rfl
  | cons n ns ih =>
    rw [along, List.mapM_cons, ← ih, Node.type]
    split
    · rfl
    · generalize along ns = w
      obtain ⟨visited, stop⟩ := w
      cases stop <;> rfl

end Walk

namespace Node

theorem walkAll_eq_along {ns : List Node} (h : ∀ n ∈ ns, n.walk = .along n.preorder) :
    walk.walkAll ns = .along (ns.flatMap preorder) := by
  induction ns with
  | nil => rfl
  | cons n ns ih =>
    obtain ⟨hn, hns⟩ := List.forall_mem_cons.1 h
    rw [walk.walkAll, hn, ih hns, List.flatMap_cons, Walk.along_append]

/-- A walk goes through the parts in preorder. -/
theorem walk_eq_along (n : Node) : n.walk = .along n.preorder := by
  induction n using children_induction with
  | step n ih =>
    rw [preorder_eq, Walk.along]
    split
    · cases n with
      | foreign => rfl
      | _ => contradiction
    · rename_i hknown
      rw [← walkAll_eq_along ih]
      exact walk_of_known (Bool.eq_false_iff.2 hknown)

/-! ## Records -/

variable (spans : Bool)

/-- The fields of the object of a node, but for its type and its place, out of the records of its
children. -/
def entries : Node → List Json → List (String × Json)
  | .program .., items => [("statements", .array items)]
  | .variableDeclaration .., items => ["name", "initializer"].zip items
  | .expressionStatement .., items => ["expression"].zip items
  | .literal value _, _ => [("kind", .string value.literalKind), ("value", .ofScalar value)]
  | .identifier name _, _ => [("name", .string name)]
  | .call .., items => ["callee"].zip items ++ [("arguments", .array (items.drop 1))]
  | .unary operator .., items => ("operator", .string operator) :: ["operand"].zip items
  | .binary operator .., items => ("operator", .string operator) :: ["left", "right"].zip items
  | .foreign .., _ => []

theorem records_cons (n : Node) (ns : List Node) :
    record.records spans (n :: ns) =
      n.record spans >>= fun r => record.records spans ns >>= fun items => .ok (r :: items) := rfl

/-- The record of a node is put together from those of its children. -/
theorem record_of_known {n : Node} (h : n.isForeign = false) :
    n.record spans = record.records spans n.children >>= fun items =>
      .ok (object spans n (n.entries items)) := by
  cases n with
  | foreign => cases h
  | program | literal | identifier => rfl
  | expressionStatement m | unary _ m =>
    simp only [record, children, records_cons]
    cases m.record spans <;> rfl
  | variableDeclaration l r | binary _ l r =>
    simp only [record, children, records_cons]
    cases l.record spans <;> cases r.record spans <;> rfl
  | call callee arguments =>
    simp only [record, children, records_cons]
    cases callee.record spans <;> cases record.records spans arguments <;> rfl

theorem exists_of_record {n : Node} {v : Json} (h : n.record spans = .ok v) :
    n.isForeign = false ∧ ∃ items, record.records spans n.children = .ok items ∧
      v = object spans n (n.entries items) := by
  have hknown : n.isForeign = false := by
    cases n with
    | foreign => cases h
    | _ => rfl
  rw [record_of_known spans hknown] at h
  obtain ⟨items, hitems, h⟩ := exists_of_bind_eq_ok h
  exact ⟨hknown, items, hitems, (Except.ok.inj h).symm⟩

theorem length_of_records {ns : List Node} {items : List Json}
    (h : record.records spans ns = .ok items) : items.length = ns.length := by
  induction ns generalizing items with
  | nil =>
    cases h
    rfl
  | cons n ns ih =>
    rw [records_cons] at h
    obtain ⟨r, -, h⟩ := exists_of_bind_eq_ok h
    obtain ⟨others, hothers, h⟩ := exists_of_bind_eq_ok h
    cases h
    rw [List.length_cons, ih hothers, List.length_cons]

theorem types_object (n : Node) (fields : List (String × Json)) :
    (object spans n fields).types = n.typeName :: Json.types.typesOfFields fields := by
  have hspan : Json.types.typesOfFields (if spans then [("span", n.span.record)] else []) = [] := by
    cases spans <;> rfl
  rw [object, Json.types, List.cons_append, Json.types.typesOfFields, Json.typesOfFields_append,
    hspan, List.append_nil]
  rfl

/-- The types in the fields of a node are those in the records of its children. -/
theorem types_entries {n : Node} {items : List Json} (h : items.length = n.children.length) :
    Json.types.typesOfFields (n.entries items) = items.flatMap Json.types := by
  cases n with
  | program statements =>
    simp [entries, Json.types.typesOfFields, Json.types, Json.typesOfItems_eq_flatMap]
  | literal value =>
    obtain rfl := List.length_eq_zero_iff.1 h
    cases value <;> rfl
  | identifier | foreign =>
    obtain rfl := List.length_eq_zero_iff.1 h
    rfl
  | expressionStatement | unary =>
    obtain ⟨r, rfl⟩ := List.length_eq_one_iff.1 h
    simp [entries, Json.types.typesOfFields, Json.types]
  | variableDeclaration | binary =>
    obtain ⟨l, r, rfl⟩ := List.length_eq_two.1 h
    simp [entries, Json.types.typesOfFields, Json.types]
  | call callee arguments =>
    obtain ⟨r, items, rfl⟩ := List.exists_cons_of_length_eq_add_one h
    simp [entries, Json.types.typesOfFields, Json.types, Json.typesOfItems_eq_flatMap]

theorem types_records {ns : List Node}
    (h : ∀ n ∈ ns, (n.record spans).map Json.types = n.preorder.mapM type) :
    (record.records spans ns).map (List.flatMap Json.types) = (ns.flatMap preorder).mapM type := by
  induction ns with
  | nil => rfl
  | cons n ns ih =>
    obtain ⟨hn, hns⟩ := List.forall_mem_cons.1 h
    rw [records_cons, List.flatMap_cons, List.mapM_append, ← hn, ← ih hns]
    cases n.record spans with
    | error e => rfl
    | ok r => cases record.records spans ns <;> rfl

/-- A record names the types of the parts in preorder. -/
theorem types_record (n : Node) : (n.record spans).map Json.types = n.preorder.mapM type := by
  induction n using children_induction with
  | step n ih =>
    rw [preorder_eq, List.mapM_cons, ← types_records spans ih, type]
    split
    · cases n with
      | foreign => rfl
      | _ => contradiction
    · rename_i hknown
      rw [record_of_known spans (Bool.eq_false_iff.2 hknown)]
      cases hitems : record.records spans n.children with
      | error e => rfl
      | ok items =>
        change Except.ok (object spans n (n.entries items)).types = _
        rw [types_object, types_entries (length_of_records spans hitems)]
        rfl

end Node

/-- A walk and a record of a tree, which may have parts in the wrong place and parts that are no
nodes, tell the same types, and one is stopped by such a part exactly if the other is, with the same
message. That part is the first one of its kind in preorder, and the last part of the walk. -/
theorem walk_record_agree (spans : Bool) (n : Node) :
    (∀ r, n.record spans = .ok r → n.walk.stop = none ∧
      n.walk.visited.map Node.typeName = r.types ∧ n.walk.visited = n.preorder) ∧
    (∀ e, n.record spans = .error e ↔ n.walk.stop = some e) ∧
    ∀ e, n.walk.stop = some e → ∃ before m behind, n.preorder = before ++ m :: behind ∧
      (∀ p ∈ before, p.isForeign = false) ∧ m.isForeign = true ∧
      n.walk.visited = before ++ [m] ∧ e.message = "Unknown AST node: " ++ m.typeName := by
  have htypes : (n.record spans).map Json.types = n.walk.types := by
    rw [Node.types_record, ← Walk.types_along, ← Node.walk_eq_along]
  have hcases := Walk.along_cases n.preorder
  rw [← Node.walk_eq_along] at hcases
  obtain ⟨-, hwalk⟩ | ⟨before, m, behind, hpreorder, hbefore, hm, hwalk⟩ := hcases
  · rw [hwalk] at htypes ⊢
    cases hrecord : n.record spans with
    | error e =>
      rw [hrecord] at htypes
      cases htypes
    | ok r =>
      rw [hrecord] at htypes
      refine ⟨?_, fun e => iff_of_false nofun nofun, nofun⟩
      rintro _ ⟨⟩
      exact ⟨rfl, (Except.ok.inj htypes).symm, rfl⟩
  · rw [hwalk] at htypes ⊢
    cases hrecord : n.record spans with
    | ok r =>
      rw [hrecord] at htypes
      cases htypes
    | error e =>
      rw [hrecord] at htypes
      obtain rfl : e = ⟨m.typeName⟩ := Except.error.inj htypes
      refine ⟨nofun, fun e => by rw [Except.error.injEq, Option.some.injEq], ?_⟩
      rintro _ ⟨⟩
      exact ⟨before, m, behind, hpreorder, hbefore, hm, rfl, rfl⟩

end RuleLang
