import Mathlib.Algebra.Order.Ring.Int
import RuleLang.Options.Schema
import RuleLang.Proofs.Decimal.Shortest

/-!
Settings by what they are: which numbers are integers, which value a key has in a mapping, and which
settings cannot be written out because of an integer that they hold.
-/
namespace RuleLang

section Numbers

/-- What a finite double with this sign is, times its denominator. -/
def Magnitude.signed (m : Magnitude) (negative : Bool) : Int :=
  if negative then -(m.numerator : Int) else m.numerator

/-- The number is this integer: as such, or as a double without a fraction. -/
inductive Number.IsInteger (z : Int) : Number → Prop
  | int : IsInteger z (.int z)
  | float {negative : Bool} {m : Magnitude} (h : m.signed negative = z * m.denominator) :
    IsInteger z (.float (.finite negative m))

theorem Magnitude.toNat?_eq_some_iff {m : Magnitude} {n : Nat} :
    m.toNat? = some n ↔ m.numerator = n * m.denominator := by
  have hpos : 0 < m.denominator := m.denominator_pos
  rw [toNat?]
  constructor
  · intro h
    split at h
    · rename_i hdvd
      cases h
      exact (Nat.div_mul_cancel (Nat.dvd_of_mod_eq_zero hdvd)).symm
    · exact nomatch h
  · intro h
    rw [h, Nat.mul_mod_left, if_pos rfl, Nat.mul_div_cancel n hpos]

theorem Double.toInt?_finite {negative : Bool} {m : Magnitude} {z : Int} :
    (Double.finite negative m).toInt? = some z ↔ m.signed negative = z * m.denominator := by
  have hmap : (Double.finite negative m).toInt? =
      m.toNat?.map fun n : Nat => if negative then -(n : Int) else n := by
    cases h : m.toNat? <;> simp [toInt?, h]
  rw [hmap, Option.map_eq_some_iff]
  constructor
  · rintro ⟨n, hn, rfl⟩
    rw [Magnitude.signed, Magnitude.toNat?_eq_some_iff.1 hn]
    cases negative <;> simp
  · intro h
    have hdvd : m.denominator ∣ m.numerator := by
      have hint : (m.denominator : Int) ∣ m.signed negative := ⟨z, by rw [h, Int.mul_comm]⟩
      have habs : (m.denominator : Int) ∣ (m.numerator : Int) := by
        cases negative with
        | false => exact hint
        | true => exact Int.dvd_neg.1 hint
      exact Int.natCast_dvd_natCast.1 habs
    obtain ⟨n, hn⟩ := hdvd
    rw [Nat.mul_comm] at hn
    refine ⟨n, Magnitude.toNat?_eq_some_iff.2 hn, ?_⟩
    have hne : (m.denominator : Int) ≠ 0 := Int.natCast_ne_zero.2 m.denominator_pos.ne'
    apply Int.eq_of_mul_eq_mul_right hne
    rw [← h, Magnitude.signed, hn]
    cases negative <;> simp

namespace Number

variable {n : Number} {z bound : Int}

/-- A number is read as an integer exactly if it is one. -/
theorem toInt?_eq_some_iff : n.toInt? = some z ↔ n.IsInteger z := by
  constructor
  · intro h
    cases n with
    | int n =>
      cases h
      exact .int
    | float x =>
      cases x with
      | finite negative m => exact .float (Double.toInt?_finite.1 h)
      | nan => exact nomatch h
      | infinite negative => exact nomatch h
  · intro h
    cases h with
    | int => rfl
    | float h => exact (Double.toInt?_finite.2 h :)

theorem toInt?_isSome_iff : n.toInt?.isSome = true ↔ ∃ z, n.IsInteger z := by
  simp only [Option.isSome_iff_exists, toInt?_eq_some_iff]

theorem IsInteger.isBelow_iff (h : n.IsInteger z) : n.isBelow bound = true ↔ z < bound := by
  cases h with
  | int => simp [isBelow]
  | @float negative m h =>
    have hpos : (0 : Int) < m.denominator := Int.natCast_pos.2 m.denominator_pos
    change decide (m.signed negative < bound * m.denominator) = true ↔ _
    rw [decide_eq_true_iff, h, mul_lt_mul_iff_of_pos_right hpos]

theorem IsInteger.isAbove_iff (h : n.IsInteger z) : n.isAbove bound = true ↔ bound < z := by
  cases h with
  | int => simp [isAbove]
  | @float negative m h =>
    have hpos : (0 : Int) < m.denominator := Int.natCast_pos.2 m.denominator_pos
    change decide (bound * m.denominator < m.signed negative) = true ↔ _
    rw [decide_eq_true_iff, h, mul_lt_mul_iff_of_pos_right hpos]

end Number

end Numbers

namespace Setting

section Keys

variable {key : String} {entries : List (Setting × Setting)} {v : Setting}

/-- The first entry with a text key has this value. -/
def HasValue (entries : List (Setting × Setting)) (key : String) (v : Setting) : Prop :=
  ∃ before after, entries = before ++ (.text key, v) :: after ∧ ∀ e ∈ before, e.1 ≠ .text key

/-- A text is the same key as no setting but itself. -/
theorem sameKey_text {k : Setting} : k.sameKey (.text key) = true ↔ k = .text key := by
  cases k <;> simp [sameKey, asNumber?]

theorem find?_eq_some_iff : find? key entries = some v ↔ HasValue entries key v := by
  rw [find?, Option.map_eq_some_iff]
  constructor
  · rintro ⟨⟨k, w⟩, hfound, rfl⟩
    obtain ⟨hkey, before, after, hentries, hbefore⟩ := List.find?_eq_some_iff_append.1 hfound
    cases sameKey_text.1 hkey
    refine ⟨before, after, hentries, fun e he hsame => ?_⟩
    have hother := hbefore e he
    rw [sameKey_text.2 hsame] at hother
    exact nomatch hother
  · rintro ⟨before, after, rfl, hbefore⟩
    refine ⟨(.text key, v), List.find?_eq_some_iff_append.2 ?_, rfl⟩
    refine ⟨sameKey_text.2 rfl, before, after, rfl, fun e he => ?_⟩
    rw [Bool.not_eq_true', ← Bool.not_eq_true, sameKey_text]
    exact hbefore e he

theorem find?_eq_none_iff : find? key entries = none ↔ ∀ e ∈ entries, e.1 ≠ .text key := by
  rw [find?, Option.map_eq_none_iff, List.find?_eq_none]
  simp only [sameKey_text, ne_eq]

end Keys

section Writable

/-- The integer stands somewhere in the setting. -/
inductive Holds (z : Int) : Setting → Prop
  | number : Holds z (.int z)
  | item {x : Setting} {items : List Setting} (hx : x ∈ items) (h : Holds z x) :
    Holds z (.list items)
  | key {e : Setting × Setting} {entries : List (Setting × Setting)} (he : e ∈ entries)
    (h : Holds z e.1) : Holds z (.mapping entries)
  | value {e : Setting × Setting} {entries : List (Setting × Setting)} (he : e ∈ entries)
    (h : Holds z e.2) : Holds z (.mapping entries)

theorem areWritable_eq_all (items : List Setting) :
    isWritable.areWritable items = items.all isWritable := by
  induction items with
  | nil => rfl
  | cons x xs ih => rw [isWritable.areWritable, ih, List.all_cons]

theorem entriesAreWritable_eq_all (entries : List (Setting × Setting)) :
    isWritable.entriesAreWritable entries =
      entries.all fun e => e.1.isWritable && e.2.isWritable := by
  induction entries with
  | nil => rfl
  | cons e es ih => rw [isWritable.entriesAreWritable, ih, List.all_cons]

theorem Holds.not_isWritable {z : Int} {s : Setting} (h : s.Holds z) (hlong : Number.IsTooLong z) :
    s.isWritable = false := by
  induction h with
  | number =>
    rw [isWritable]
    exact Number.isWritable_int.2 hlong
  | item hx h ih =>
    rw [isWritable, areWritable_eq_all, List.all_eq_false]
    exact ⟨_, hx, by simp [ih]⟩
  | key he h ih =>
    rw [isWritable, entriesAreWritable_eq_all, List.all_eq_false]
    exact ⟨_, he, by simp [ih]⟩
  | value he h ih =>
    rw [isWritable, entriesAreWritable_eq_all, List.all_eq_false]
    exact ⟨_, he, by simp [ih]⟩

mutual

theorem exists_holds (s : Setting) (h : s.isWritable = false) :
    ∃ z, s.Holds z ∧ Number.IsTooLong z := by
  cases s with
  | number n =>
    cases n with
    | int z => exact ⟨z, .number, Number.isWritable_int.1 h⟩
    | float x => exact nomatch h
  | list items =>
    obtain ⟨x, hx, z, hz, hlong⟩ := exists_item_holds items h
    exact ⟨z, .item hx hz, hlong⟩
  | mapping entries =>
    obtain ⟨e, he, z, hz, hlong⟩ := exists_entry_holds entries h
    cases hz with
    | inl hkey => exact ⟨z, .key he hkey, hlong⟩
    | inr hvalue => exact ⟨z, .value he hvalue, hlong⟩
  | null => exact nomatch h
  | bool b => exact nomatch h
  | text s => exact nomatch h
  | moment m => exact nomatch h

theorem exists_item_holds (items : List Setting) (h : isWritable.areWritable items = false) :
    ∃ x ∈ items, ∃ z, x.Holds z ∧ Number.IsTooLong z := by
  cases items with
  | nil => exact nomatch h
  | cons x xs =>
    rw [isWritable.areWritable, Bool.and_eq_false_iff] at h
    cases h with
    | inl h => exact ⟨x, List.mem_cons_self, exists_holds x h⟩
    | inr h =>
      obtain ⟨y, hy, hholds⟩ := exists_item_holds xs h
      exact ⟨y, List.mem_cons_of_mem x hy, hholds⟩

theorem exists_entry_holds (entries : List (Setting × Setting))
    (h : isWritable.entriesAreWritable entries = false) :
    ∃ e ∈ entries, ∃ z, (e.1.Holds z ∨ e.2.Holds z) ∧ Number.IsTooLong z := by
  cases entries with
  | nil => exact nomatch h
  | cons e es =>
    obtain ⟨k, v⟩ := e
    rw [isWritable.entriesAreWritable, Bool.and_eq_false_iff, Bool.and_eq_false_iff] at h
    obtain (h | h) | h := h
    · obtain ⟨z, hz, hlong⟩ := exists_holds k h
      exact ⟨(k, v), List.mem_cons_self, z, .inl hz, hlong⟩
    · obtain ⟨z, hz, hlong⟩ := exists_holds v h
      exact ⟨(k, v), List.mem_cons_self, z, .inr hz, hlong⟩
    · obtain ⟨e, he, hholds⟩ := exists_entry_holds es h
      exact ⟨e, List.mem_cons_of_mem (k, v) he, hholds⟩

end

/-- A setting cannot be written out exactly if an integer in it has too many digits. -/
theorem isWritable_eq_false_iff {s : Setting} :
    s.isWritable = false ↔ ∃ z, s.Holds z ∧ Number.IsTooLong z := by
  constructor
  · exact exists_holds s
  · rintro ⟨z, hz, hlong⟩
    exact hz.not_isWritable hlong

end Writable

end Setting

end RuleLang
