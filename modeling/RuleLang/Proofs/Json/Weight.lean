import RuleLang.Json.Printer
import RuleLang.Proofs.Text.Conveyed

/-!
How much a JSON text weighs. Characters count once and the letter `r` twice, so that a string gets
lighter where escape sequences are left out of it or carriage returns become line feeds. Of two JSON
values that differ in their strings only, the one with lighter strings has the lighter text; so the
texts are the same only if no string got lighter (`mapString_eq_self`).
-/
namespace RuleLang.Json

/-- The value with all its strings changed, but for the names of fields. -/
def mapString (f : String → String) : Json → Json
  | .string s => .string (f s)
  | .array items => .array (mapItems items)
  | .object fields => .object (mapFields fields)
  | .null => .null
  | .bool b => .bool b
  | .number n => .number n
where
  mapItems : List Json → List Json
    | [] => []
    | v :: items => mapString f v :: mapItems items
  mapFields : List (String × Json) → List (String × Json)
    | [] => []
    | (name, v) :: fields => (name, mapString f v) :: mapFields fields

theorem mapItems_eq_map (f : String → String) (items : List Json) :
    mapString.mapItems f items = items.map (mapString f) := by
  induction items with
  | nil => rfl
  | cons v items ih => rw [mapString.mapItems, ih, List.map_cons]

theorem mapFields_eq_map (f : String → String) (fields : List (String × Json)) :
    mapString.mapFields f fields = fields.map fun field => (field.1, field.2.mapString f) := by
  induction fields with
  | nil => rfl
  | cons field fields ih =>
    obtain ⟨name, v⟩ := field
    rw [mapString.mapFields, ih, List.map_cons]

/-- Characters count once, and the letter `r` twice. -/
def weight (cs : List Char) : Nat := cs.length + cs.count 'r'

@[simp] theorem weight_nil : weight [] = 0 := rfl

@[simp] theorem weight_append (cs ds : List Char) : weight (cs ++ ds) = weight cs + weight ds := by
  simp only [weight, List.length_append, List.count_append]
  omega

@[simp] theorem weight_cons (c : Char) (cs : List Char) :
    weight (c :: cs) = (if c = 'r' then 2 else 1) + weight cs := by
  simp only [weight, List.length_cons, List.count_cons, beq_iff_eq]
  split <;> omega

/-- The weight of texts together. -/
def total : List (List Char) → Nat
  | [] => 0
  | cs :: texts => weight cs + total texts

@[simp] theorem total_nil : total [] = 0 := rfl

@[simp] theorem total_cons (cs : List Char) (texts : List (List Char)) :
    total (cs :: texts) = weight cs + total texts := rfl

/-- What stands between items weighs the same for items of any weight. -/
theorem weight_intercalate (separator : List Char) {texts others : List (List Char)}
    (h : texts.length = others.length) :
    weight (separator.intercalate texts) + total others =
      weight (separator.intercalate others) + total texts := by
  induction texts generalizing others with
  | nil =>
    obtain rfl := List.length_eq_zero_iff.1 h.symm
    rfl
  | cons cs texts ih =>
    obtain ⟨ds, others, rfl⟩ := List.exists_cons_of_length_eq_add_one h.symm
    have hrest := Nat.succ.inj h
    have ih := ih hrest
    cases texts with
    | nil =>
      obtain rfl := List.length_eq_zero_iff.1 hrest.symm
      simp [List.intercalate_singleton]
      omega
    | cons cs' texts =>
      obtain ⟨ds', others, rfl⟩ := List.exists_cons_of_length_eq_add_one hrest.symm
      rw [List.intercalate_cons_cons, List.intercalate_cons_cons]
      simp only [weight_append, total_cons] at ih ⊢
      omega

theorem weight_enclose (indent : Option Nat) (level : Nat) (left right : Char)
    {texts others : List (List Char)} (h : texts.length = others.length) :
    weight (enclose indent level left right texts) + total others =
      weight (enclose indent level left right others) + total texts := by
  have hempty : texts.isEmpty = others.isEmpty := by
    cases texts <;> cases others <;> simp_all
  have hitems := weight_intercalate (separator indent (level + 1)) h
  unfold enclose
  rw [hempty]
  split
  · rename_i hnil
    obtain rfl := List.isEmpty_iff.1 hnil
    obtain rfl := List.length_eq_zero_iff.1 h
    rfl
  · simp only [weight_append, weight_cons]
    omega

/-- A change of strings that makes them lighter, or leaves them as they are. -/
structure Lightens (f : String → String) : Prop where
  le : ∀ s, weight (writeString (f s)) ≤ weight (writeString s)
  eq : ∀ s, weight (writeString (f s)) = weight (writeString s) → f s = s

section Values

variable {f : String → String} (indent : Option Nat)

theorem length_writeItems (level : Nat) (items : List Json) :
    (write.writeItems indent level items).length = items.length := by
  induction items with
  | nil => rfl
  | cons v items ih => rw [write.writeItems, List.length_cons, ih, List.length_cons]

theorem length_writeFields (level : Nat) (fields : List (String × Json)) :
    (write.writeFields indent level fields).length = fields.length := by
  induction fields with
  | nil => rfl
  | cons field fields ih =>
    obtain ⟨name, v⟩ := field
    rw [write.writeFields, List.length_cons, ih, List.length_cons]

theorem length_mapItems (items : List Json) :
    (mapString.mapItems f items).length = items.length := by
  rw [mapItems_eq_map, List.length_map]

theorem length_mapFields (fields : List (String × Json)) :
    (mapString.mapFields f fields).length = fields.length := by
  rw [mapFields_eq_map, List.length_map]

mutual

/-- A value whose strings get lighter has a lighter text, unless they all stay as they are. -/
theorem weight_mapString (hf : Lightens f) (level : Nat) (v : Json) :
    weight (write indent level (v.mapString f)) ≤ weight (write indent level v) ∧
      (weight (write indent level (v.mapString f)) = weight (write indent level v) →
        v.mapString f = v) := by
  cases v with
  | null | bool | number => exact ⟨Nat.le_refl _, fun _ => rfl⟩
  | string s => exact ⟨hf.le s, fun h => congrArg Json.string (hf.eq s h)⟩
  | array items =>
    obtain ⟨hle, heq⟩ := total_mapItems hf level items
    have hlength : (write.writeItems indent level (mapString.mapItems f items)).length =
        (write.writeItems indent level items).length := by
      rw [length_writeItems, length_writeItems, length_mapItems]
    have hsame := weight_enclose indent level '[' ']' hlength
    rw [mapString, write, write]
    exact ⟨by omega, fun h => congrArg Json.array (heq (by omega))⟩
  | object fields =>
    obtain ⟨hle, heq⟩ := total_mapFields hf level fields
    have hlength : (write.writeFields indent level (mapString.mapFields f fields)).length =
        (write.writeFields indent level fields).length := by
      rw [length_writeFields, length_writeFields, length_mapFields]
    have hsame := weight_enclose indent level '\x7b' '\x7d' hlength
    rw [mapString, write, write]
    exact ⟨by omega, fun h => congrArg Json.object (heq (by omega))⟩

theorem total_mapItems (hf : Lightens f) (level : Nat) (items : List Json) :
    total (write.writeItems indent level (mapString.mapItems f items)) ≤
        total (write.writeItems indent level items) ∧
      (total (write.writeItems indent level (mapString.mapItems f items)) =
        total (write.writeItems indent level items) → mapString.mapItems f items = items) := by
  cases items with
  | nil => exact ⟨Nat.le_refl _, fun _ => rfl⟩
  | cons v items =>
    obtain ⟨hle, heq⟩ := weight_mapString hf (level + 1) v
    obtain ⟨hles, heqs⟩ := total_mapItems hf level items
    simp only [mapString.mapItems, write.writeItems, total_cons]
    exact ⟨by omega, fun h => List.cons_eq_cons.2 ⟨heq (by omega), heqs (by omega)⟩⟩

theorem total_mapFields (hf : Lightens f) (level : Nat) (fields : List (String × Json)) :
    total (write.writeFields indent level (mapString.mapFields f fields)) ≤
        total (write.writeFields indent level fields) ∧
      (total (write.writeFields indent level (mapString.mapFields f fields)) =
        total (write.writeFields indent level fields) → mapString.mapFields f fields = fields) := by
  cases fields with
  | nil => exact ⟨Nat.le_refl _, fun _ => rfl⟩
  | cons field fields =>
    obtain ⟨name, v⟩ := field
    obtain ⟨hle, heq⟩ := weight_mapString hf (level + 1) v
    obtain ⟨hles, heqs⟩ := total_mapFields hf level fields
    simp only [mapString.mapFields, write.writeFields, total_cons, weight_append, weight_cons]
    exact ⟨by omega, fun h => List.cons_eq_cons.2
      ⟨Prod.mk.injEq .. ▸ ⟨rfl, heq (by omega)⟩, heqs (by omega)⟩⟩

end

end Values

/-- If a change of strings that may only make them lighter leaves the text of a value as it is, it
leaves the value as it is. -/
theorem mapString_eq_self {f : String → String} (hf : Lightens f) (indent : Option Int) {v : Json}
    (h : (v.mapString f).text indent = v.text indent) : v.mapString f = v := by
  rw [text, text] at h
  have hwritten := congrArg weight (String.ofList_injective h)
  exact (weight_mapString (indent.map Int.toNat) hf 0 v).2 hwritten

/-! ## Strings that are read from a file -/

open Text

theorem escapeChar_ne_nil (c : Char) : escapeChar c ≠ [] := by
  unfold escapeChar
  repeat' split
  all_goals exact List.cons_ne_nil _ _

theorem weight_escapeChar_pos (c : Char) : 0 < weight (escapeChar c) := by
  have hpos := List.length_pos_iff.2 (escapeChar_ne_nil c)
  rw [weight]
  exact Nat.lt_add_right _ hpos

theorem weight_unified (c : Char) : weight (escapeChar (unified c)) ≤ weight (escapeChar c) ∧
    (weight (escapeChar (unified c)) = weight (escapeChar c) → unified c = c) := by
  unfold unified
  split
  · rename_i hc
    rw [hc]
    decide
  · exact ⟨Nat.le_refl _, fun _ => rfl⟩

/-- Each escape sequence that is left out, and each carriage return that becomes a line feed, makes
a string lighter. -/
theorem weight_conveyed (cs : List Char) :
    weight (((stripFrom 0 cs).map unified).flatMap escapeChar) ≤ weight (cs.flatMap escapeChar) ∧
      (weight (((stripFrom 0 cs).map unified).flatMap escapeChar) = weight (cs.flatMap escapeChar) →
        (stripFrom 0 cs).map unified = cs) := by
  induction cs using escape_induction with
  | nil => exact ⟨Nat.le_refl _, fun _ => rfl⟩
  | kept c rest hkept ih =>
    obtain ⟨hle, heq⟩ := weight_unified c
    obtain ⟨hles, heqs⟩ := ih
    rw [stripFrom_kept hkept]
    simp only [List.map_cons, List.flatMap_cons, weight_append]
    exact ⟨by omega, fun h => List.cons_eq_cons.2 ⟨heq (by omega), heqs (by omega)⟩⟩
  | sequence params letter rest h ih =>
    have hpos := weight_escapeChar_pos '\x1b'
    have hle := ih.1
    rw [stripFrom_sequence h]
    simp only [List.flatMap_cons, List.flatMap_append, weight_append]
    exact ⟨by omega, fun h => by omega⟩

/-- What is read of the text of a literal is lighter than the text, unless it is the text. -/
theorem lightens_conveyedValue : Lightens conveyedValue where
  le s := by
    have hle := (weight_conveyed s.toList).1
    simp only [writeString, conveyedValue, String.toList_ofList, weight_append, List.cons_append,
      weight_cons]
    omega
  eq s h := by
    have heq := (weight_conveyed s.toList).2
    simp only [writeString, conveyedValue, String.toList_ofList, weight_append, List.cons_append,
      weight_cons] at h
    rw [conveyedValue, heq (by omega), String.ofList_toList]

end RuleLang.Json
