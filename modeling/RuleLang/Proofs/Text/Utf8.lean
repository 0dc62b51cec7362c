import RuleLang.Text.Utf8

/-!
Decoding what was encoded. The bytes of a text are those of its characters one after the other, and
the bytes of a character are read as this character with nothing left of them (`decodeChar_encode`),
so the bytes of a text are read as the text (`decodeUtf8_bytesOf`). A text without carriage returns
is also left as it is when its line ends are made alike.
-/
namespace RuleLang.Text

/-- The bytes of a text. -/
def bytesOf (s : String) : List UInt8 := s.toUTF8.data.toList

theorem toNat_ofNat {n : Nat} (h : n < 0x100) : (UInt8.ofNat n).toNat = n :=
  UInt8.toNat_ofNat_of_lt h

/-- A byte within the range that is asked for gives its lower six bits. -/
theorem continuation_cons {low high n : Nat} (hn : n < 0x40) (hlow : low ≤ n + 0x80)
    (hhigh : n + 0x80 ≤ high) (rest : List UInt8) :
    continuation low high (UInt8.ofNat (n + 0x80) :: rest) = .ok (n, rest) := by
  rw [continuation, toNat_ofNat (by omega), if_pos ⟨hlow, hhigh⟩,
    show (n + 0x80) % 0x40 = n by omega]

/-- Any byte that may follow is in range behind another such byte. -/
theorem continuation_any (n : Nat) (rest : List UInt8) :
    continuation 0x80 0xBF (UInt8.ofNat (n % 0x40 + 0x80) :: rest) = .ok (n % 0x40, rest) :=
  continuation_cons (by omega) (by omega) (by omega) rest

/-- The six bits behind a first byte are in its range if the encoding is not too long, of no
surrogate and of no number beyond the last character. -/
theorem secondRange_spec {first n : Nat} (hn : n < 0x40) (hthree : first = 0xE0 → 0x20 ≤ n)
    (hsurrogate : first = 0xED → n < 0x20) (hfour : first = 0xF0 → 0x10 ≤ n)
    (hlast : first = 0xF4 → n < 0x10) :
    (secondRange first).1 ≤ n + 0x80 ∧ n + 0x80 ≤ (secondRange first).2 := by
  unfold secondRange
  repeat' split
  all_goals
    dsimp only
    omega

section Characters

variable {n : Nat} (rest : List UInt8)

theorem decodeChar_one (h : n ≤ 0x7F) :
    decodeChar (UInt8.ofNat n) rest = .ok (Char.ofNat n, rest) := by
  simp only [decodeChar, toNat_ofNat (show n < 0x100 by omega), if_pos (show n < 0x80 by omega)]
  rfl

theorem decodeChar_two (h : 0x7F < n) (h' : n ≤ 0x7FF) :
    decodeChar (UInt8.ofNat (n / 0x40 % 0x20 + 0xC0)) (UInt8.ofNat (n % 0x40 + 0x80) :: rest) =
      .ok (Char.ofNat n, rest) := by
  -- the first byte gets a name, so that the tests of it are linear
  obtain ⟨m, hm⟩ : ∃ m, n / 0x40 % 0x20 + 0xC0 = m := ⟨_, rfl⟩
  have hrange : secondRange m = (0x80, 0xBF) := by
    simp only [secondRange]
    rw [if_neg (by omega), if_neg (by omega), if_neg (by omega), if_neg (by omega)]
  simp only [decodeChar, hm, toNat_ofNat (show m < 0x100 by omega), hrange, continuation_any]
  rw [if_neg (by omega), if_pos (by omega)]
  change Except.ok (Char.ofNat (m % 0x20 * 0x40 + n % 0x40), rest) = _
  rw [show m % 0x20 * 0x40 + n % 0x40 = n by omega]

theorem decodeChar_three (h : 0x7FF < n) (h' : n ≤ 0xFFFF) (hn : n.isValidChar) :
    decodeChar (UInt8.ofNat (n / 0x1000 % 0x10 + 0xE0))
      (UInt8.ofNat (n / 0x40 % 0x40 + 0x80) :: UInt8.ofNat (n % 0x40 + 0x80) :: rest) =
      .ok (Char.ofNat n, rest) := by
  obtain ⟨m, hm⟩ : ∃ m, n / 0x1000 % 0x10 + 0xE0 = m := ⟨_, rfl⟩
  have hsecond : continuation (secondRange m).1 (secondRange m).2
      (UInt8.ofNat (n / 0x40 % 0x40 + 0x80) :: UInt8.ofNat (n % 0x40 + 0x80) :: rest) =
        .ok (n / 0x40 % 0x40, UInt8.ofNat (n % 0x40 + 0x80) :: rest) := by
    obtain ⟨hlow, hhigh⟩ := @secondRange_spec m (n / 0x40 % 0x40) (by omega) (by omega) (by omega)
      (by omega) (by omega)
    exact continuation_cons (by omega) hlow hhigh _
  simp only [decodeChar, hm, toNat_ofNat (show m < 0x100 by omega), hsecond]
  rw [if_neg (by omega), if_neg (by omega), if_pos (by omega)]
  simp only [bind, Except.bind, continuation_any]
  change Except.ok (Char.ofNat ((m % 0x10 * 0x40 + n / 0x40 % 0x40) * 0x40 + n % 0x40), rest) = _
  rw [show (m % 0x10 * 0x40 + n / 0x40 % 0x40) * 0x40 + n % 0x40 = n by omega]

theorem decodeChar_four (h : 0xFFFF < n) (hn : n.isValidChar) :
    decodeChar (UInt8.ofNat (n / 0x40000 % 0x08 + 0xF0))
      (UInt8.ofNat (n / 0x1000 % 0x40 + 0x80) :: UInt8.ofNat (n / 0x40 % 0x40 + 0x80) ::
        UInt8.ofNat (n % 0x40 + 0x80) :: rest) =
      .ok (Char.ofNat n, rest) := by
  obtain ⟨m, hm⟩ : ∃ m, n / 0x40000 % 0x08 + 0xF0 = m := ⟨_, rfl⟩
  have hsecond (more : List UInt8) : continuation (secondRange m).1 (secondRange m).2
      (UInt8.ofNat (n / 0x1000 % 0x40 + 0x80) :: more) = .ok (n / 0x1000 % 0x40, more) := by
    obtain ⟨hlow, hhigh⟩ := @secondRange_spec m (n / 0x1000 % 0x40) (by omega) (by omega)
      (by omega) (by omega) (by omega)
    exact continuation_cons (by omega) hlow hhigh _
  simp only [decodeChar, hm, toNat_ofNat (show m < 0x100 by omega), hsecond]
  rw [if_neg (by omega), if_neg (by omega), if_neg (by omega), if_pos (by omega)]
  simp only [bind, Except.bind, continuation_any]
  change Except.ok (Char.ofNat (((m % 0x08 * 0x40 + n / 0x1000 % 0x40) * 0x40 +
    n / 0x40 % 0x40) * 0x40 + n % 0x40), rest) = _
  rw [show ((m % 0x08 * 0x40 + n / 0x1000 % 0x40) * 0x40 + n / 0x40 % 0x40) * 0x40 +
    n % 0x40 = n by omega]

/-- The bytes of a character are read as this character. -/
theorem decodeChar_encode (c : Char) : ∃ first more, String.utf8EncodeChar c = first :: more ∧
    decodeChar first (more ++ rest) = .ok (c, rest) := by
  suffices hread : ∃ first more, String.utf8EncodeChar c = first :: more ∧
      decodeChar first (more ++ rest) = .ok (Char.ofNat c.val.toNat, rest) by
    rwa [show Char.ofNat c.val.toNat = c from c.ofNat_toNat] at hread
  have hvalid : c.val.toNat.isValidChar := c.valid
  simp only [String.utf8EncodeChar]
  split
  · exact ⟨_, _, rfl, decodeChar_one rest ‹_›⟩
  · split
    · exact ⟨_, _, rfl, decodeChar_two rest (Nat.not_le.1 ‹_›) ‹_›⟩
    · split
      · exact ⟨_, _, rfl, decodeChar_three rest (Nat.not_le.1 ‹_›) ‹_› hvalid⟩
      · exact ⟨_, _, rfl, decodeChar_four rest (Nat.not_le.1 ‹_›) hvalid⟩

end Characters

theorem decodeMany_flatMap (cs : List Char) {count : Nat} (h : cs.length ≤ count) :
    decodeMany count (cs.flatMap String.utf8EncodeChar) = .ok cs := by
  induction cs generalizing count with
  | nil => cases count <;> rfl
  | cons c cs ih =>
    obtain ⟨count, rfl⟩ := Nat.exists_eq_add_of_lt (Nat.lt_of_lt_of_le (by simp) h : 0 < count)
    obtain ⟨first, more, hbytes, hread⟩ :=
      decodeChar_encode (cs.flatMap String.utf8EncodeChar) c
    rw [List.flatMap_cons, hbytes, List.cons_append, Nat.zero_add, decodeMany, hread]
    simp only [List.length_cons] at h
    simp only [bind, Except.bind, ih (show cs.length ≤ count by omega)]
    rfl

theorem bytesOf_eq (s : String) :
    bytesOf s = s.toList.flatMap String.utf8EncodeChar := by
  have hbytes : s.toUTF8 = (s.toList.flatMap String.utf8EncodeChar).toByteArray :=
    String.utf8Encode_toList.symm
  rw [bytesOf, hbytes, List.data_toByteArray]

theorem length_le_length_flatMap (cs : List Char) :
    cs.length ≤ (cs.flatMap String.utf8EncodeChar).length := by
  induction cs with
  | nil => simp
  | cons c cs ih =>
    obtain ⟨first, more, hbytes, -⟩ := decodeChar_encode [] c
    simp only [List.flatMap_cons, hbytes, List.length_append, List.length_cons]
    omega

/-- The bytes of a text are read as the text. -/
theorem decodeUtf8_bytesOf (s : String) : decodeUtf8 (bytesOf s) = .ok s.toList := by
  rw [decodeUtf8, bytesOf_eq]
  exact decodeMany_flatMap _ (length_le_length_flatMap _)

theorem unifyNewlines_of_not_mem {cs : List Char} (h : '\r' ∉ cs) : unifyNewlines cs = cs := by
  fun_induction unifyNewlines cs with
  | case1 => rfl
  | case2 rest ih => exact absurd List.mem_cons_self h
  | case3 c rest _ ih =>
    have hc : c ≠ '\r' := fun e => h (e ▸ List.mem_cons_self)
    rw [if_neg hc, ih fun hmem => h (List.mem_cons_of_mem _ hmem)]

end RuleLang.Text
