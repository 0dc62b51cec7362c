import RuleLang.Proofs.Json.Weight
import RuleLang.Proofs.Node.Parts
import RuleLang.Proofs.Node.Records
import RuleLang.Proofs.Token.Conveyed

/-!
Trees whose literals are read from a file that they were printed to. All else of a well-formed tree
is made of plain characters; so its JSON value is the one of the tree with its strings as they are
read, and that is the same value exactly if the literals lose nothing (`IsProgram.exists_recorded`).
-/
namespace RuleLang.Node

open Text

/-- The tree with its literals as they are read from a file. -/
def conveyed : Node → Node
  | .program statements span => .program (conveyeds statements) span
  | .variableDeclaration name initializer span =>
    .variableDeclaration name.conveyed initializer.conveyed span
  | .expressionStatement expression span => .expressionStatement expression.conveyed span
  | .literal value span => .literal value.conveyed span
  | .identifier name span => .identifier name span
  | .call callee arguments span => .call callee.conveyed (conveyeds arguments) span
  | .unary operator operand span => .unary operator operand.conveyed span
  | .binary operator left right span => .binary operator left.conveyed right.conveyed span
  | .foreign name span => .foreign name span
where
  /-- `conveyed` for the nodes of a list. -/
  conveyeds : List Node → List Node
    | [] => []
    | n :: ns => n.conveyed :: conveyeds ns

theorem conveyeds_eq_map (ns : List Node) : conveyed.conveyeds ns = ns.map conveyed := by
  induction ns with
  | nil => rfl
  | cons n ns ih => rw [conveyed.conveyeds, ih, List.map_cons]

theorem conveyed_withSpan (s : Span) (n : Node) :
    (n.withSpan s).conveyed = n.conveyed.withSpan s := by
  cases n <;> rfl

@[simp] theorem typeName_conveyed (n : Node) : n.conveyed.typeName = n.typeName := by
  cases n <;> rfl

@[simp] theorem span_conveyed (n : Node) : n.conveyed.span = n.span := by
  cases n <;> rfl

/-- No text literal of the tree holds a carriage return or an escape sequence. -/
def Intact (n : Node) : Prop :=
  ∀ t span, (literal (.text t) span).Part n → '\r' ∉ t.toList ∧ stripEscapes t = t

theorem intact_text {t : String} {span : Span} :
    (literal (.text t) span).Intact ↔ conveyedValue t = t := by
  rw [conveyedValue_eq_self_iff]
  constructor
  · exact fun h => h t span .self
  · intro h t' span' hpart
    cases hpart with
    | self => exact h
    | child hc _ => cases hc

/-- All other trees are intact if what is below them is. -/
theorem intact_iff {n : Node} (hn : ∀ t span, n ≠ .literal (.text t) span) :
    n.Intact ↔ ∀ c ∈ n.children, c.Intact := by
  constructor
  · exact fun h c hc t span hpart => h t span (.child hc hpart)
  · intro h t span hpart
    cases hpart with
    | self => exact absurd rfl (hn t span)
    | child hc hpart => exact h _ hc t span hpart

/-! ## Records -/

theorem plain_typeName {n : Node} (hn : ∀ name span, n ≠ .foreign name span) :
    Plain n.typeName.toList := by
  have hall : ∀ name ∈ ["Program", "VariableDeclaration", "ExpressionStatement", "Literal",
      "Identifier", "CallExpression", "UnaryExpression", "BinaryExpression"],
      Plain name.toList := by
    decide
  cases n with
  | foreign name span => exact absurd rfl (hn name span)
  | _ => exact hall _ (by simp [typeName])

/-- The JSON value of a tree, and what it has to do with the tree that is read. -/
structure Recorded (spans : Bool) (n : Node) (v : Json) : Prop where
  record : n.record spans = .ok v
  conveyed : n.conveyed.record spans = .ok (v.mapString conveyedValue)
  intact : v.mapString conveyedValue = v ↔ n.Intact

variable {spans : Bool}

/-- The JSON value of a node is that of its fields. -/
theorem Recorded.of_fields {n : Node} {fields : List (String × Json)}
    (hn : ∀ name span, n ≠ .foreign name span)
    (hrecord : n.record spans = .ok (object spans n fields))
    (hconveyed : n.conveyed.record spans =
      .ok (object spans n.conveyed (Json.mapString.mapFields conveyedValue fields)))
    (hintact : Json.mapString.mapFields conveyedValue fields = fields ↔ n.Intact) :
    Recorded spans n (object spans n fields) := by
  have hname : conveyedValue n.typeName = n.typeName := conveyedValue_of_plain (plain_typeName hn)
  have hobject : (object spans n fields).mapString conveyedValue =
      object spans n (Json.mapString.mapFields conveyedValue fields) := by
    simp only [object, Json.mapString, Json.mapFields_eq_map, List.map_append, List.map_cons, hname]
    cases spans with
    | false => rfl
    | true => rfl
  refine ⟨hrecord, ?_, ?_⟩
  · rw [hconveyed, hobject]
    simp only [object, typeName_conveyed, span_conveyed]
  · rw [hobject, ← hintact]
    simp only [object, Json.object.injEq, List.append_cancel_right_eq, List.cons.injEq, true_and]

/-- The JSON values of the trees of a list. -/
theorem exists_recordeds {ns : List Node} (h : ∀ n ∈ ns, ∃ v, Recorded spans n v) :
    ∃ items, record.records spans ns = .ok items ∧
      record.records spans (conveyed.conveyeds ns) =
        .ok (Json.mapString.mapItems conveyedValue items) ∧
      (Json.mapString.mapItems conveyedValue items = items ↔ ∀ n ∈ ns, n.Intact) := by
  induction ns with
  | nil => exact ⟨[], rfl, rfl, by simp [Json.mapString.mapItems]⟩
  | cons n ns ih =>
    obtain ⟨⟨v, hv⟩, hns⟩ := List.forall_mem_cons.1 h
    obtain ⟨items, hitems, hconveyed, hintact⟩ := ih hns
    refine ⟨v :: items, ?_, ?_, ?_⟩
    · rw [record.records, hv.record, hitems]
      rfl
    · rw [conveyed.conveyeds, record.records, hv.conveyed, hconveyed]
      rfl
    · rw [Json.mapString.mapItems, List.cons_eq_cons, hv.intact, hintact, List.forall_mem_cons]

theorem conveyed_ofScalar {value : Scalar} :
    Json.ofScalar value.conveyed = (Json.ofScalar value).mapString conveyedValue := by
  cases value <;> rfl

theorem conveyedValue_literalKind (value : Scalar) :
    conveyedValue value.literalKind = value.literalKind := by
  have hall : ∀ kind ∈ ["boolean", "string", "number"], Plain kind.toList := by decide
  refine conveyedValue_of_plain (hall _ ?_)
  cases value <;> simp [Scalar.literalKind]

theorem conveyedValue_operator {operator : String} (h : operator ∈ operatorStrengths.map Prod.fst) :
    conveyedValue operator = operator := by
  exact conveyedValue_of_plain (plain_operator h)

theorem conveyedValue_sign {operator : String} (h : operator = "-" ∨ operator = "!") :
    conveyedValue operator = operator := by
  refine conveyedValue_of_plain ?_
  obtain rfl | rfl := h
  · decide
  · decide

variable (spans)

theorem recorded_literal (value : Scalar) (span : Span) :
    Recorded spans (.literal value span) (object spans (.literal value span)
      [("kind", .string value.literalKind), ("value", .ofScalar value)]) := by
  have hkind := conveyedValue_literalKind value
  refine .of_fields (by simp) rfl ?_ ?_
  · have hsame : value.conveyed.literalKind = value.literalKind := by cases value <;> rfl
    simp only [conveyed, record, Json.mapString.mapFields, Json.mapString, hkind, hsame,
      conveyed_ofScalar]
    rfl
  · cases value with
    | text t => simp [Json.mapString.mapFields, Json.mapString, Json.ofScalar, hkind, intact_text]
    | null | bool | number =>
      rw [intact_iff (by simp)]
      simp [Json.mapString.mapFields, Json.mapString, Json.ofScalar, hkind, children]

theorem recorded_identifier {name : String} (h : IsName name) (span : Span) :
    Recorded spans (.identifier name span) (object spans (.identifier name span)
      [("name", .string name)]) := by
  have hname : conveyedValue name = name := conveyedValue_of_plain h.plain
  refine .of_fields (by simp) rfl ?_ ?_
  · simp only [conveyed, record, Json.mapString.mapFields, Json.mapString, hname]
    rfl
  · rw [intact_iff (by simp)]
    simp [Json.mapString.mapFields, Json.mapString, hname, children]

theorem IsExpression.exists_recorded {n : Node} (h : n.IsExpression) :
    ∃ v, Recorded spans n v := by
  induction h with
  | literal h => exact ⟨_, recorded_literal spans _ _⟩
  | identifier h => exact ⟨_, recorded_identifier spans h _⟩
  | @call name inner span arguments h ha ih =>
    have hcallee := recorded_identifier spans h inner
    obtain ⟨items, hitems, hconveyed, hintact⟩ := exists_recordeds ih
    refine ⟨_, .of_fields (by simp) (by rw [record, hcallee.record, hitems]; rfl) ?_ ?_⟩
    · rw [Node.conveyed, record, hcallee.conveyed, hconveyed]
      rfl
    · rw [intact_iff (by simp)]
      simp [Json.mapString.mapFields, Json.mapString, children, hcallee.intact, hintact]
  | unary h ho ih =>
    obtain ⟨v, hv⟩ := ih
    have hoperator := conveyedValue_sign h
    refine ⟨_, .of_fields (by simp) (by rw [record, hv.record]; rfl) ?_ ?_⟩
    · simp only [Node.conveyed, record, hv.conveyed, Json.mapString.mapFields, Json.mapString,
        hoperator]
      rfl
    · rw [intact_iff (by simp)]
      simp [Json.mapString.mapFields, Json.mapString, hoperator, children, hv.intact]
  | binary h hl hr ihl ihr =>
    obtain ⟨l, hl⟩ := ihl
    obtain ⟨r, hr⟩ := ihr
    have hoperator := conveyedValue_operator h
    refine ⟨_, .of_fields (by simp) (by rw [record, hl.record, hr.record]; rfl) ?_ ?_⟩
    · simp only [Node.conveyed, record, hl.conveyed, hr.conveyed, Json.mapString.mapFields,
        Json.mapString, hoperator]
      rfl
    · rw [intact_iff (by simp)]
      simp [Json.mapString.mapFields, Json.mapString, hoperator, children, hl.intact, hr.intact]

theorem IsStatement.exists_recorded {n : Node} (h : n.IsStatement) :
    ∃ v, Recorded spans n v := by
  cases h with
  | @variableDeclaration name inner span initializer h hi =>
    obtain ⟨v, hv⟩ := hi.exists_recorded spans
    have hname := recorded_identifier spans h inner
    refine ⟨_, .of_fields (by simp) (by rw [record, hname.record, hv.record]; rfl) ?_ ?_⟩
    · rw [Node.conveyed, record, hname.conveyed, hv.conveyed]
      rfl
    · rw [intact_iff (by simp)]
      simp [Json.mapString.mapFields, children, hname.intact, hv.intact]
  | expressionStatement h =>
    obtain ⟨v, hv⟩ := h.exists_recorded spans
    refine ⟨_, .of_fields (by simp) (by rw [record, hv.record]; rfl) ?_ ?_⟩
    · rw [Node.conveyed, record, hv.conveyed]
      rfl
    · rw [intact_iff (by simp)]
      simp [Json.mapString.mapFields, children, hv.intact]

/-- A program has a JSON value. Its strings are read from a file that the program was printed to,
and they stay as they are exactly if the text literals of the program are intact. -/
theorem IsProgram.exists_recorded {n : Node} (h : n.IsProgram) : ∃ v, Recorded spans n v := by
  cases h with
  | program hs =>
    obtain ⟨items, hitems, hconveyed, hintact⟩ :=
      exists_recordeds fun n hn => (hs n hn).exists_recorded spans
    refine ⟨_, .of_fields (by simp) (by rw [record, hitems]; rfl) ?_ ?_⟩
    · rw [Node.conveyed, record, hconveyed]
      rfl
    · rw [intact_iff (by simp)]
      simp [Json.mapString.mapFields, Json.mapString, children, hintact]

end RuleLang.Node
