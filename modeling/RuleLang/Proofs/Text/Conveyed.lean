import RuleLang.Proofs.Text.Utf8
import RuleLang.Proofs.Token.Words
import RuleLang.Text.Terminal

/-!
Texts that are printed and then read from a file. Printing leaves out the escape sequences of
terminals, and reading makes line ends alike. Plain characters are left as they are, and a string
literal is read up to its closing quote, since neither an escape sequence nor a line end goes beyond
it (`conveyed_literal`).
-/
namespace RuleLang

namespace Text

/-- What is read from a file that a text was printed to. -/
def conveyed (cs : List Char) : List Char := unifyNewlines (stripFrom 0 cs)

/-- A character as it is read, apart from a line end of two characters. -/
def unified (c : Char) : Char := if c = '\r' then '\n' else c

/-- What is left of the text that a literal stands for. -/
def conveyedValue (s : String) : String := String.ofList ((stripFrom 0 s.toList).map unified)

/-- Neither an escape character nor a carriage return. -/
def IsPlain (c : Char) : Prop := c ≠ '\x1b' ∧ c ≠ '\r'

instance (c : Char) : Decidable (IsPlain c) := inferInstanceAs (Decidable (_ ∧ _))

/-- A text of plain characters. -/
def Plain (cs : List Char) : Prop := ∀ c ∈ cs, IsPlain c

-- by the members of the list, since a search through all characters would find no end
instance (cs : List Char) : Decidable (Plain cs) := List.decidableBAll IsPlain cs

/-! ## Escape sequences -/

/-- The parameters and the letter of an escape sequence. -/
structure IsSequence (params : List Char) (letter : Char) : Prop where
  params : ∀ c ∈ params, isEscapeParameter c = true
  letter : letter.isAlpha = true

theorem toNat_of_isEscapeParameter {c : Char} (h : isEscapeParameter c = true) : c.toNat < 64 := by
  simp only [isEscapeParameter, Bool.or_eq_true, decide_eq_true_eq] at h
  obtain (rfl | rfl) | h := h
  · decide
  · decide
  · have := toNat_of_isDigit h
    omega

theorem not_isEscapeParameter_of_isAlpha {c : Char} (h : c.isAlpha = true) :
    isEscapeParameter c = false := by
  rw [Bool.eq_false_iff]
  intro hparameter
  have := toNat_of_isEscapeParameter hparameter
  have := toNat_of_isAlpha h
  omega

theorem escapeWidth?_eq_some_iff {cs : List Char} {width : Nat} :
    escapeWidth? cs = some width ↔ ∃ params letter rest, IsSequence params letter ∧
      cs = '[' :: (params ++ letter :: rest) ∧ width = params.length + 2 := by
  constructor
  · intro h
    unfold escapeWidth? at h
    split at h
    · rename_i rest
      split at h
      · rename_i c more hdrop
        split at h
        · rename_i hc
          refine ⟨rest.takeWhile isEscapeParameter, c, more,
            ⟨List.all_eq_true.1 List.all_takeWhile, hc⟩, ?_, (Option.some.inj h).symm⟩
          rw [← hdrop, List.takeWhile_append_dropWhile]
        · cases h
      · cases h
    · cases h
  · rintro ⟨params, letter, rest, ⟨hparams, hletter⟩, rfl, rfl⟩
    have hstop : isEscapeParameter letter = false := not_isEscapeParameter_of_isAlpha hletter
    simp only [escapeWidth?, List.takeWhile_append_of_pos hparams,
      List.dropWhile_append_of_pos hparams, List.takeWhile_cons, List.dropWhile_cons, hstop,
      Bool.false_eq_true, if_false, hletter, if_true, List.append_nil]

/-- A character that begins no escape sequence in front of the given text. -/
def IsKept (c : Char) (rest : List Char) : Prop := c = '\x1b' → escapeWidth? rest = none

theorem stripFrom_kept {c : Char} {rest : List Char} (h : IsKept c rest) :
    stripFrom 0 (c :: rest) = c :: stripFrom 0 rest := by
  by_cases hc : c = '\x1b'
  · rw [stripFrom, if_pos hc, h hc]
  · rw [stripFrom, if_neg hc]

theorem stripFrom_drop (skip : Nat) (cs : List Char) :
    stripFrom skip cs = stripFrom 0 (cs.drop skip) := by
  induction skip generalizing cs with
  | zero => rfl
  | succ skip ih =>
    cases cs with
    | nil => rfl
    | cons c cs => rw [stripFrom, ih, List.drop_succ_cons]

theorem stripFrom_sequence {params : List Char} {letter : Char} (h : IsSequence params letter)
    (rest : List Char) :
    stripFrom 0 ('\x1b' :: '[' :: (params ++ letter :: rest)) = stripFrom 0 rest := by
  have hwidth : escapeWidth? ('[' :: (params ++ letter :: rest)) = some (params.length + 2) :=
    escapeWidth?_eq_some_iff.2 ⟨params, letter, rest, h, rfl, rfl⟩
  rw [stripFrom, if_pos rfl, hwidth]
  dsimp only
  rw [stripFrom_drop, List.drop_succ_cons, ← List.drop_drop, List.drop_left, List.drop_succ_cons,
    List.drop_zero]

/-- A text is empty, or begins with a character that is kept or with an escape sequence. -/
theorem escape_induction {P : List Char → Prop} (nil : P [])
    (kept : ∀ c rest, IsKept c rest → P rest → P (c :: rest))
    (sequence : ∀ params letter rest, IsSequence params letter → P rest →
      P ('\x1b' :: '[' :: (params ++ letter :: rest))) (cs : List Char) : P cs := by
  match cs with
  | [] => exact nil
  | c :: rest =>
    by_cases hc : c = '\x1b'
    · cases hwidth : escapeWidth? rest with
      | none => exact kept c rest (fun _ => hwidth) (escape_induction nil kept sequence rest)
      | some width =>
        obtain ⟨params, letter, more, h, hrest, -⟩ := escapeWidth?_eq_some_iff.1 hwidth
        rw [hc, hrest]
        exact sequence params letter more h (escape_induction nil kept sequence more)
    · exact kept c rest (fun h => absurd h hc) (escape_induction nil kept sequence rest)
termination_by cs.length
decreasing_by
  · simp
  · simp [hrest]
    omega
  · simp

theorem stripFrom_append {cs : List Char} (h : '\x1b' ∉ cs) (rest : List Char) :
    stripFrom 0 (cs ++ rest) = cs ++ stripFrom 0 rest := by
  induction cs with
  | nil => rfl
  | cons c cs ih =>
    have hc : IsKept c (cs ++ rest) := fun e => absurd (e ▸ List.mem_cons_self) h
    rw [List.cons_append, stripFrom_kept hc, ih fun hmem => h (List.mem_cons_of_mem _ hmem),
      List.cons_append]

/-! ## Line ends -/

theorem unifyNewlines_cons {c : Char} {rest : List Char}
    (h : c = '\r' → rest.head? ≠ some '\n') :
    unifyNewlines (c :: rest) = unified c :: unifyNewlines rest := by
  rw [unifyNewlines.eq_3]
  · rfl
  · rintro tail rfl rfl
    exact h rfl rfl

/-- A text that holds no line feed has no line end of two characters either. -/
theorem unifyNewlines_append {cs rest : List Char} (hcs : '\n' ∉ cs)
    (hrest : rest.head? ≠ some '\n') :
    unifyNewlines (cs ++ rest) = cs.map unified ++ unifyNewlines rest := by
  induction cs with
  | nil => rfl
  | cons c cs ih =>
    obtain ⟨-, hcs⟩ := List.ne_and_not_mem_of_not_mem_cons hcs
    rw [List.cons_append, unifyNewlines_cons, ih hcs]
    · rfl
    · intro _
      cases cs with
      | nil => exact hrest
      | cons d cs => exact fun h => hcs (Option.some.inj h ▸ List.mem_cons_self)

theorem unifyNewlines_append_of_not_mem {cs : List Char} (h : '\r' ∉ cs) (rest : List Char) :
    unifyNewlines (cs ++ rest) = cs ++ unifyNewlines rest := by
  induction cs with
  | nil => rfl
  | cons c cs ih =>
    have hc : c ≠ '\r' := fun e => h (e ▸ List.mem_cons_self)
    rw [List.cons_append, unifyNewlines_cons fun e => absurd e hc, unified, if_neg hc,
      ih fun hmem => h (List.mem_cons_of_mem _ hmem), List.cons_append]

/-- Plain characters are read as they are, whatever follows. -/
theorem conveyed_append {cs : List Char} (h : Plain cs) (rest : List Char) :
    conveyed (cs ++ rest) = cs ++ conveyed rest := by
  rw [conveyed, stripFrom_append fun hmem => (h _ hmem).1 rfl,
    unifyNewlines_append_of_not_mem fun hmem => (h _ hmem).2 rfl, conveyed]

theorem conveyed_of_plain {cs : List Char} (h : Plain cs) : conveyed cs = cs := by
  simpa [conveyed, stripFrom, unifyNewlines] using conveyed_append h []

/-! ## Literals -/

/-- The characters between the quotes of a literal as they are read. -/
def conveyedBody (s : String) : List Char :=
  ((stripFrom 0 s.toList).flatMap escapeLiteralChar).map unified

theorem escapeLiteralChar_cases (c : Char) :
    (∃ d, escapeLiteralChar c = ['\\', d] ∧ IsPlain d ∧ d ≠ '\n') ∨
      escapeLiteralChar c = [c] ∧ c ≠ '\\' ∧ c ≠ '"' ∧ c ≠ '\n' := by
  unfold escapeLiteralChar
  split
  · exact .inl ⟨'\\', rfl, by decide⟩
  · split
    · exact .inl ⟨'"', rfl, by decide⟩
    · split
      · exact .inl ⟨'n', rfl, by decide⟩
      · exact .inr ⟨rfl, ‹_›, ‹_›, ‹_›⟩

theorem not_mem_escapeLiteralChar (c : Char) : '\n' ∉ escapeLiteralChar c := by
  obtain ⟨d, hescape, -, hd⟩ | ⟨hescape, -, -, hc⟩ := escapeLiteralChar_cases c
  · simp [hescape, hd.symm]
  · simp [hescape, hc.symm]

/-- What begins neither with a backslash nor with a quote stands for itself in a literal. -/
theorem exists_of_escaped {cs value rest tail : List Char}
    (h : ∀ c ∈ cs, c ≠ '\\' ∧ c ≠ '"')
    (hsplit : value.flatMap escapeLiteralChar ++ '"' :: tail = cs ++ rest) :
    ∃ more, value = cs ++ more ∧ rest = more.flatMap escapeLiteralChar ++ '"' :: tail := by
  induction cs generalizing value with
  | nil => exact ⟨value, rfl, hsplit.symm⟩
  | cons c cs ih =>
    obtain ⟨⟨hbackslash, hquote⟩, hcs⟩ := List.forall_mem_cons.1 h
    cases value with
    | nil => exact absurd (List.cons_eq_cons.1 hsplit).1.symm hquote
    | cons d value =>
      rw [List.flatMap_cons, List.append_assoc] at hsplit
      obtain ⟨e, hescape, -⟩ | ⟨hescape, -⟩ := escapeLiteralChar_cases d
      · rw [hescape] at hsplit
        exact absurd (List.cons_eq_cons.1 hsplit).1.symm hbackslash
      · rw [hescape] at hsplit
        obtain ⟨rfl, hmore⟩ := List.cons_eq_cons.1 hsplit
        obtain ⟨more, rfl, hrest⟩ := ih hcs hmore
        exact ⟨more, rfl, hrest⟩

theorem IsSequence.unescaped {params : List Char} {letter : Char} (h : IsSequence params letter) :
    ∀ c ∈ '[' :: (params ++ [letter]), c ≠ '\\' ∧ c ≠ '"' ∧ c ≠ '\n' := by
  intro c hc
  obtain rfl | hc := List.mem_cons.1 hc
  · decide
  · obtain hc | hc := List.mem_append.1 hc
    · have hparameter : isEscapeParameter c = true := h.params c hc
      refine ⟨?_, ?_, ?_⟩ <;> rintro rfl <;> exact absurd hparameter (by decide)
    · obtain rfl := List.mem_singleton.1 hc
      have hletter := h.letter
      refine ⟨?_, ?_, ?_⟩ <;> rintro rfl <;> exact absurd hletter (by decide)

/-- Characters that stand for themselves are written as they are. -/
theorem flatMap_escapeLiteralChar {cs : List Char} (h : ∀ c ∈ cs, c ≠ '\\' ∧ c ≠ '"' ∧ c ≠ '\n') :
    cs.flatMap escapeLiteralChar = cs := by
  induction cs with
  | nil => rfl
  | cons c cs ih =>
    obtain ⟨⟨hbackslash, hquote, hfeed⟩, hcs⟩ := List.forall_mem_cons.1 h
    rw [List.flatMap_cons, ih hcs, escapeLiteralChar, if_neg hbackslash, if_neg hquote,
      if_neg hfeed, List.singleton_append]

/-- The escape sequences of a literal are those of the text it stands for. -/
theorem stripFrom_literal (value tail : List Char) :
    stripFrom 0 (value.flatMap escapeLiteralChar ++ '"' :: tail) =
      (stripFrom 0 value).flatMap escapeLiteralChar ++ '"' :: stripFrom 0 tail := by
  induction value using escape_induction with
  | nil => exact stripFrom_kept (c := '"') fun h => absurd h (by decide)
  | kept c value hkept ih =>
    rw [stripFrom_kept hkept, List.flatMap_cons, List.flatMap_cons, List.append_assoc,
      List.append_assoc, ← ih]
    by_cases hc : c = '\x1b'
    · subst hc
      refine stripFrom_kept fun _ => Option.eq_none_iff_forall_ne_some.2 fun width hwidth => ?_
      obtain ⟨params, letter, rest, h, hsplit, -⟩ := escapeWidth?_eq_some_iff.1 hwidth
      have hfront : value.flatMap escapeLiteralChar ++ '"' :: tail =
          '[' :: (params ++ [letter]) ++ rest := by simpa using hsplit
      obtain ⟨more, rfl, -⟩ := exists_of_escaped
        (fun c hc => ⟨(h.unescaped c hc).1, (h.unescaped c hc).2.1⟩) hfront
      have hnone := hkept rfl
      rw [escapeWidth?_eq_some_iff.2 ⟨params, letter, more, h, by simp, rfl⟩] at hnone
      cases hnone
    · refine stripFrom_append (fun hmem => ?_) _
      obtain ⟨d, hescape, hd, -⟩ | ⟨hescape, -⟩ := escapeLiteralChar_cases c
      · simp [hescape, hd.1.symm] at hmem
      · simp [hescape] at hmem
        exact hc hmem.symm
  | sequence params letter value h ih =>
    have hsplit (cs : List Char) : '\x1b' :: '[' :: (params ++ letter :: cs) =
        ['\x1b'] ++ '[' :: (params ++ [letter]) ++ cs := by
      simp
    have hescape : escapeLiteralChar '\x1b' = ['\x1b'] := by decide
    rw [stripFrom_sequence h, ← ih, hsplit, List.flatMap_append, List.flatMap_append,
      flatMap_escapeLiteralChar h.unescaped, List.flatMap_singleton, hescape, List.append_assoc,
      ← hsplit, stripFrom_sequence h]

/-- A literal is read up to its closing quote, whatever follows. -/
theorem conveyed_literal (s : String) (tail : List Char) :
    conveyed ('"' :: (s.toList.flatMap escapeLiteralChar ++ '"' :: tail)) =
      '"' :: (conveyedBody s ++ '"' :: conveyed tail) := by
  have hfeeds : '\n' ∉ (stripFrom 0 s.toList).flatMap escapeLiteralChar := by
    simp only [List.mem_flatMap, not_exists, not_and]
    exact fun c _ => not_mem_escapeLiteralChar c
  have hquote {rest : List Char} : unifyNewlines ('"' :: rest) = '"' :: unifyNewlines rest :=
    unifyNewlines_cons (c := '"') fun h => absurd h (by decide)
  rw [conveyed, stripFrom_kept fun h => absurd h (by decide), stripFrom_literal, hquote,
    unifyNewlines_append hfeeds (by simp), hquote]
  rfl

/-! ## What is left as it is -/

theorem stripFrom_sublist (cs : List Char) : (stripFrom 0 cs).Sublist cs := by
  induction cs using escape_induction with
  | nil => exact .slnil
  | kept c rest hkept ih =>
    rw [stripFrom_kept hkept]
    exact ih.cons_cons c
  | sequence params letter rest h ih =>
    have hrest : rest.Sublist (params ++ letter :: rest) :=
      (List.sublist_cons_self letter rest).trans (List.sublist_append_right _ _)
    rw [stripFrom_sequence h]
    exact (ih.trans hrest).cons _ |>.cons _

/-- A text is left as it is exactly if no escape sequence stands anywhere in it. -/
theorem stripFrom_eq_self_iff {cs : List Char} : stripFrom 0 cs = cs ↔
    ∀ params letter, IsSequence params letter →
      ¬('\x1b' :: '[' :: (params ++ [letter]) <:+: cs) := by
  induction cs using escape_induction with
  | nil => simp [stripFrom]
  | kept c rest hkept ih =>
    rw [stripFrom_kept hkept, List.cons_inj_right, ih]
    refine forall₃_congr fun params letter h => not_congr ?_
    rw [List.infix_cons_iff, or_iff_right]
    rintro ⟨more, hmore⟩
    obtain ⟨rfl, rfl⟩ := List.cons_eq_cons.1 hmore
    have hwidth : escapeWidth? ('[' :: (params ++ [letter]) ++ more) = some (params.length + 2) :=
      escapeWidth?_eq_some_iff.2 ⟨params, letter, more, h, by simp, rfl⟩
    have hnone : escapeWidth? ('[' :: (params ++ [letter]) ++ more) = none := hkept rfl
    rw [hnone] at hwidth
    cases hwidth
  | sequence params letter rest h ih =>
    refine iff_of_false (fun hself => ?_) fun hnone => hnone params letter h ⟨[], rest, by simp⟩
    have hlength := (stripFrom_sublist rest).length_le
    rw [stripFrom_sequence h] at hself
    rw [hself] at hlength
    simp only [List.length_cons, List.length_append] at hlength
    omega

/-- What stands in a text without escape sequences has none. -/
theorem stripFrom_of_within {cs text : List Char} (h : stripFrom 0 text = text)
    (hcs : cs <:+: text) : stripFrom 0 cs = cs :=
  stripFrom_eq_self_iff.2 fun params letter hsequence hwithin =>
    stripFrom_eq_self_iff.1 h params letter hsequence (hwithin.trans hcs)

theorem unified_ne_return (c : Char) : unified c ≠ '\r' := by
  unfold unified
  split
  · decide
  · assumption

theorem map_unified_of_not_mem {cs : List Char} (h : '\r' ∉ cs) : cs.map unified = cs := by
  refine (List.map_congr_left fun c hc => if_neg ?_).trans (List.map_id cs)
  rintro rfl
  exact h hc

/-- The text of a literal is left as it is if it holds neither a carriage return nor an escape
sequence. -/
theorem conveyedValue_eq_self_iff {s : String} :
    conveyedValue s = s ↔ '\r' ∉ s.toList ∧ stripEscapes s = s := by
  have hiff : conveyedValue s = s ↔ (stripFrom 0 s.toList).map unified = s.toList := by
    rw [conveyedValue, ← String.toList_inj, String.toList_ofList]
  have hstrip : stripEscapes s = s ↔ stripFrom 0 s.toList = s.toList := by
    rw [stripEscapes, ← String.toList_inj, String.toList_ofList]
  rw [hiff, hstrip]
  constructor
  · intro h
    have hlength := congrArg List.length h
    rw [List.length_map] at hlength
    refine ⟨fun hreturn => ?_, (stripFrom_sublist _).eq_of_length hlength⟩
    rw [← h, List.mem_map] at hreturn
    obtain ⟨c, -, hc⟩ := hreturn
    exact unified_ne_return c hc
  · rintro ⟨hreturn, h⟩
    rw [h, map_unified_of_not_mem hreturn]

theorem conveyedValue_of_plain {s : String} (h : Plain s.toList) :
    conveyedValue s = s := by
  refine conveyedValue_eq_self_iff.2 ⟨fun hmem => (h _ hmem).2 rfl, ?_⟩
  rw [stripEscapes, stripFrom_of_not_mem fun hmem => (h _ hmem).1 rfl, String.ofList_toList]

end Text

end RuleLang
