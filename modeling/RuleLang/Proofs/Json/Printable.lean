import RuleLang.Json.Printer
import RuleLang.Proofs.Token.Words

/-!
The characters of JSON text. Strings escape all but printable ASCII characters, and numbers, words
and punctuation have no others, so that besides such characters a JSON text holds only the line
feeds of its indentation (`isLaidOut_of_mem_text`).
-/
namespace RuleLang.Json

/-- A printable ASCII character. -/
def IsVisible (c : Char) : Prop := 0x20 ≤ c.toNat ∧ c.toNat < 0x7F

instance (c : Char) : Decidable (IsVisible c) := inferInstanceAs (Decidable (_ ∧ _))

theorem isVisible_of_all (cs : List Char) (h : cs.all (decide <| IsVisible ·) = true) :
    ∀ c ∈ cs, IsVisible c :=
  fun c hc => of_decide_eq_true (List.all_eq_true.1 h c hc)

/-! ## Numbers -/

theorem isVisible_of_isDigit {c : Char} (h : c.isDigit = true) : IsVisible c := by
  obtain ⟨hlow, hhigh⟩ := toNat_of_isDigit h
  exact ⟨by omega, by omega⟩

theorem isVisible_of_mem_digits {n : Nat} : ∀ c ∈ Nat.toDigits 10 n, IsVisible c :=
  fun c hc => isVisible_of_isDigit (Decimal.isDigit_of_mem_toDigits n c hc)

theorem isVisible_of_mem_zeros {zeros : Nat} : ∀ c ∈ List.replicate zeros '0', IsVisible c :=
  fun c hc => isVisible_of_isDigit (Decimal.isDigit_of_mem_zeros c hc)

theorem isVisible_of_mem_positional (d : Decimal) : ∀ c ∈ d.positional, IsVisible c := by
  obtain ⟨whole, fraction, ⟨htext, -, -, hwhole, hfraction⟩, -⟩ := d.positional_spec
  rw [htext]
  refine List.forall_mem_append.2 ⟨fun c hc => isVisible_of_isDigit (hwhole c hc), ?_⟩
  exact List.forall_mem_cons.2 ⟨by decide, fun c hc => isVisible_of_isDigit (hfraction c hc)⟩

theorem isVisible_of_mem_scientific (d : Decimal) : ∀ c ∈ d.scientific, IsVisible c := by
  have hdigits := @isVisible_of_mem_digits d.digits
  have hpoint : ∀ c ∈ (if (Nat.toDigits 10 d.digits).length = 1 then [] else ['.']),
      IsVisible c := by
    split <;> exact isVisible_of_all _ rfl
  have hsign (p : Prop) [Decidable p] : IsVisible (if p then '-' else '+') := by
    split <;> decide
  simp only [Decimal.scientific, List.forall_mem_append, List.forall_mem_cons]
  exact ⟨⟨⟨fun c hc => hdigits c (List.mem_of_mem_take hc), hpoint⟩,
    fun c hc => hdigits c (List.mem_of_mem_drop hc)⟩, by decide, hsign _, isVisible_of_mem_zeros,
    isVisible_of_mem_digits⟩

theorem isVisible_of_mem_compact (d : Decimal) : ∀ c ∈ d.compact, IsVisible c := by
  unfold Decimal.compact
  dsimp only
  split
  · exact isVisible_of_mem_positional d
  · exact isVisible_of_mem_scientific d

/-- A style in which doubles are written with visible characters only. -/
structure IsVisibleStyle (style : Double.Style) : Prop where
  magnitude : ∀ d, ∀ c ∈ style.magnitude d, IsVisible c
  nan : ∀ c ∈ style.nan.toList, IsVisible c
  infinity : ∀ c ∈ style.infinity.toList, IsVisible c

theorem isVisibleStyle_json : IsVisibleStyle .json :=
  ⟨isVisible_of_mem_compact, isVisible_of_all _ rfl, isVisible_of_all _ rfl⟩

theorem isVisibleStyle_compact : IsVisibleStyle .compact :=
  ⟨isVisible_of_mem_compact, isVisible_of_all _ rfl, isVisible_of_all _ rfl⟩

theorem isVisible_of_mem_int (n : Int) : ∀ c ∈ (toString n).toList, IsVisible c := by
  cases n with
  | ofNat k => exact Number.toList_write_ofNat .json k ▸ isVisible_of_mem_digits
  | negSucc k =>
    rw [show toString (Int.negSucc k) = (Number.int (.negSucc k)).write .json from rfl,
      Number.toList_write_negSucc]
    exact List.forall_mem_cons.2 ⟨by decide, isVisible_of_mem_digits⟩

section Styles

variable {style : Double.Style} (h : IsVisibleStyle style)
include h

theorem isVisible_of_mem_double (x : Double) : ∀ c ∈ (x.write style).toList, IsVisible c := by
  have hsign : ∀ c ∈ (if x.isNegative then "-" else "").toList, IsVisible c := by
    split <;> exact isVisible_of_all _ rfl
  cases x with
  | nan => exact h.nan
  | infinite negative =>
    simp only [Double.write, String.toList_append, List.forall_mem_append]
    exact ⟨hsign, h.infinity⟩
  | finite negative m =>
    simp only [Double.write, String.toList_append, String.toList_ofList, List.forall_mem_append]
    exact ⟨hsign, h.magnitude _⟩

theorem isVisible_of_mem_number (n : Number) : ∀ c ∈ (n.write style).toList, IsVisible c := by
  cases n with
  | float x => exact isVisible_of_mem_double h x
  | int n => exact isVisible_of_mem_int n

end Styles

/-! ## Strings -/

theorem isVisible_digitChar {d : Nat} (h : d < 16) : IsVisible d.digitChar := by
  have hall : ∀ d < 16, IsVisible (Nat.digitChar d) := by decide
  exact hall d h

theorem isVisible_of_mem_toDigits (n : Nat) : ∀ c ∈ Nat.toDigits 16 n, IsVisible c := by
  induction n using Nat.strongRecOn with
  | ind n ih =>
    rw [Nat.toDigits_eq_if (by decide)]
    split
    · exact List.forall_mem_singleton.2 (isVisible_digitChar ‹_›)
    · refine List.forall_mem_append.2 ⟨ih _ (by omega), ?_⟩
      exact List.forall_mem_singleton.2 (isVisible_digitChar (by omega))

theorem isVisible_of_mem_unitEscape (n : Nat) : ∀ c ∈ unitEscape n, IsVisible c := by
  simp only [unitEscape, Text.hexadecimal, List.forall_mem_append, List.forall_mem_cons]
  exact ⟨by decide, by decide, isVisible_of_mem_zeros, isVisible_of_mem_toDigits n⟩

theorem isVisible_of_mem_escapeChar (c : Char) : ∀ d ∈ escapeChar c, IsVisible d := by
  unfold escapeChar
  split
  · rename_i hc
    obtain rfl | rfl := hc <;> exact isVisible_of_all _ rfl
  · -- the short forms
    iterate 5
      split
      · exact isVisible_of_all _ rfl
    split
    · exact List.forall_mem_singleton.2 (by rename_i hc; exact hc)
    · split
      · exact isVisible_of_mem_unitEscape _
      · exact List.forall_mem_append.2
          ⟨isVisible_of_mem_unitEscape _, isVisible_of_mem_unitEscape _⟩

theorem isVisible_of_mem_writeString (s : String) : ∀ c ∈ writeString s, IsVisible c := by
  refine List.forall_mem_append.2 ⟨List.forall_mem_cons.2 ⟨by decide, fun d hd => ?_⟩,
    List.forall_mem_singleton.2 (by decide)⟩
  obtain ⟨c, -, hd⟩ := List.mem_flatMap.1 hd
  exact isVisible_of_mem_escapeChar c d hd

/-! ## Values -/

section Values

variable (indent : Option Nat)

/-- The characters of a text: printable ones, and the line feeds of its indentation. -/
def IsLaidOut (c : Char) : Prop := IsVisible c ∨ c = '\n' ∧ indent.isSome = true

variable {indent}

theorem IsVisible.isLaidOut (cs : List Char) (h : ∀ c ∈ cs, IsVisible c) :
    ∀ c ∈ cs, IsLaidOut indent c := fun c hc => .inl (h c hc)

theorem isLaidOut_of_mem_lineBreak (level : Nat) :
    ∀ c ∈ lineBreak indent level, IsLaidOut indent c := by
  cases indent with
  | none => exact List.forall_mem_nil _
  | some width =>
    refine List.forall_mem_cons.2 ⟨.inr ⟨rfl, rfl⟩, fun c hc => ?_⟩
    rw [List.eq_of_mem_replicate hc]
    exact .inl (by decide)

theorem isLaidOut_of_mem_separator (level : Nat) :
    ∀ c ∈ separator indent level, IsLaidOut indent c := by
  cases indent with
  | none => exact IsVisible.isLaidOut [',', ' '] (isVisible_of_all _ rfl)
  | some width =>
    exact List.forall_mem_cons.2 ⟨.inl (by decide), isLaidOut_of_mem_lineBreak level⟩

theorem isLaidOut_of_mem_intercalate {separator : List Char} {items : List (List Char)}
    (hseparator : ∀ c ∈ separator, IsLaidOut indent c)
    (h : ∀ item ∈ items, ∀ c ∈ item, IsLaidOut indent c) :
    ∀ c ∈ separator.intercalate items, IsLaidOut indent c := by
  induction items with
  | nil => exact List.forall_mem_nil _
  | cons item items ih =>
    obtain ⟨hitem, hitems⟩ := List.forall_mem_cons.1 h
    cases items with
    | nil => rwa [List.intercalate_singleton]
    | cons next items =>
      rw [List.intercalate_cons_cons]
      exact List.forall_mem_append.2
        ⟨List.forall_mem_append.2 ⟨hitem, hseparator⟩, ih hitems⟩

theorem isLaidOut_of_mem_enclose {level : Nat} {left right : Char} {items : List (List Char)}
    (hleft : IsVisible left) (hright : IsVisible right)
    (h : ∀ item ∈ items, ∀ c ∈ item, IsLaidOut indent c) :
    ∀ c ∈ enclose indent level left right items, IsLaidOut indent c := by
  unfold enclose
  split
  · exact List.forall_mem_cons.2 ⟨.inl hleft, List.forall_mem_singleton.2 (.inl hright)⟩
  · simp only [List.forall_mem_append, List.forall_mem_cons, List.cons_append]
    exact ⟨.inl hleft, ⟨⟨isLaidOut_of_mem_lineBreak _,
      isLaidOut_of_mem_intercalate (isLaidOut_of_mem_separator _) h⟩,
      isLaidOut_of_mem_lineBreak _⟩, .inl hright, List.forall_mem_nil _⟩

mutual

theorem isLaidOut_of_mem_write (level : Nat) (v : Json) :
    ∀ c ∈ write indent level v, IsLaidOut indent c := by
  cases v with
  | null => exact IsVisible.isLaidOut "null".toList (isVisible_of_all _ rfl)
  | bool b =>
    cases b with
    | true => exact IsVisible.isLaidOut "true".toList (isVisible_of_all _ rfl)
    | false => exact IsVisible.isLaidOut "false".toList (isVisible_of_all _ rfl)
  | number n => exact IsVisible.isLaidOut _ (isVisible_of_mem_number isVisibleStyle_json n)
  | string s => exact IsVisible.isLaidOut _ (isVisible_of_mem_writeString s)
  | array items =>
    exact isLaidOut_of_mem_enclose (by decide) (by decide) (isLaidOut_of_mem_writeItems level items)
  | object fields =>
    exact isLaidOut_of_mem_enclose (by decide) (by decide)
      (isLaidOut_of_mem_writeFields level fields)

theorem isLaidOut_of_mem_writeItems (level : Nat) (items : List Json) :
    ∀ item ∈ write.writeItems indent level items, ∀ c ∈ item, IsLaidOut indent c := by
  cases items with
  | nil => exact List.forall_mem_nil _
  | cons v items =>
    exact List.forall_mem_cons.2
      ⟨isLaidOut_of_mem_write (level + 1) v, isLaidOut_of_mem_writeItems level items⟩

theorem isLaidOut_of_mem_writeFields (level : Nat) (fields : List (String × Json)) :
    ∀ item ∈ write.writeFields indent level fields, ∀ c ∈ item, IsLaidOut indent c := by
  cases fields with
  | nil => exact List.forall_mem_nil _
  | cons field fields =>
    obtain ⟨name, v⟩ := field
    refine List.forall_mem_cons.2 ⟨?_, isLaidOut_of_mem_writeFields level fields⟩
    simp only [List.forall_mem_append, List.forall_mem_cons]
    exact ⟨IsVisible.isLaidOut _ (isVisible_of_mem_writeString name), .inl (by decide),
      .inl (by decide), isLaidOut_of_mem_write (level + 1) v⟩

end

end Values

/-- A JSON text holds printable ASCII characters and the line feeds of its indentation. -/
theorem isLaidOut_of_mem_text (indent : Option Int) (v : Json) :
    ∀ c ∈ (v.text indent).toList, IsVisible c ∨ c = '\n' ∧ indent.isSome = true := by
  have h : ∀ c ∈ write (indent.map Int.toNat) 0 v, IsLaidOut (indent.map Int.toNat) c :=
    isLaidOut_of_mem_write 0 v
  rw [text, String.toList_ofList]
  simpa only [IsLaidOut, Option.isSome_map] using h

end RuleLang.Json
