import RuleLang.Proofs.Extents
import RuleLang.Proofs.Grammar.Printed
import RuleLang.Proofs.Node.Numbers

/-!
What may be done with a program that was read from source text, whatever was wrong with the text:
it has a text, it has a JSON text with spans and without, and it can be walked through
(`program_consumed`). Names are single words, and the numbers to be written are those of literals
and of places, which have few enough digits.
-/
namespace RuleLang

/-! ## Names -/

/-- A name is read as a single token, which is an identifier. -/
theorem IsName.lex_name {name : String} (h : IsName name) (file : String) :
    ∃ t, (lex name file).stream.ahead = [t] ∧ t.kind = .ident ∧ t.lexeme = name ∧
      (lex name file).diagnostics = [] := by
  obtain ⟨t, hahead, ht, hnone⟩ := lex_of_word name file (isName_iff.1 h) rfl
  exact ⟨t, hahead, Grammar.kind_of_word ht, Grammar.lexeme_of_name ht, hnone⟩

/-! ## Places -/

/-- No part of the place of an offset is greater than one more than the length of the text. -/
theorem Position.ofOffset_le {text : List Char} {i : Nat} (h : i ≤ text.length) :
    (ofOffset text i).offset ≤ text.length ∧ (ofOffset text i).line ≤ text.length + 1 ∧
      (ofOffset text i).column ≤ text.length + 1 := by
  have hbefore : (text.take i).length ≤ text.length := List.length_take_le' i text
  have hlines : (text.take i).count '\n' ≤ (text.take i).length := List.count_le_length
  have hcolumn : ((text.take i).reverse.takeWhile (· ≠ '\n')).length ≤ (text.take i).length := by
    simpa using (List.takeWhile_sublist (· ≠ '\n') (l := (text.take i).reverse)).length_le
  refine ⟨h, ?_, ?_⟩
  · simp only [ofOffset]
    omega
  · simp only [ofOffset]
    omega

theorem Span.holds_record_stretch {file : String} {text : List Char} {i j : Nat} {x : Number}
    (hi : i ≤ text.length) (hj : j ≤ text.length)
    (h : (stretch file text i j).record.Holds x) : ∃ k : Nat, k ≤ text.length + 1 ∧ x = .int k := by
  obtain ⟨hstart, hline, hcolumn⟩ := Position.ofOffset_le hi
  obtain ⟨hstop, hstopLine, hstopColumn⟩ := Position.ofOffset_le hj
  cases h with
  | @field _ name v hv h =>
    simp only [List.mem_cons, Prod.mk.injEq, List.not_mem_nil, or_false] at hv
    obtain ⟨-, rfl⟩ | ⟨-, rfl⟩ | ⟨-, rfl⟩ | ⟨-, rfl⟩ | ⟨-, rfl⟩ | ⟨-, rfl⟩ := hv <;> cases h
    · exact ⟨_, by omega, rfl⟩
    · exact ⟨_, by omega, rfl⟩
    · exact ⟨_, hline, rfl⟩
    · exact ⟨_, hcolumn, rfl⟩
    · exact ⟨_, hstopLine, rfl⟩
    · exact ⟨_, hstopColumn, rfl⟩

section Programs

variable {source : String} {file : Option String} {o : Options}

/-- Each part of a program stands on a stretch of its source text. -/
theorem stretch_of_part_program {m : Node} (hm : m.Part (parse source file o).program) :
    ∃ i j, i ≤ source.toList.length ∧ j ≤ source.toList.length ∧
      m.span = .stretch (o.fileFor file) source.toList i j := by
  cases hm with
  | self => exact ⟨0, _, Nat.zero_le _, Nat.le_refl _, span_program source file o⟩
  | child hc hm =>
    obtain ⟨pre, us, post, htokens, hphrase⟩ := isRead_of_part_program hc hm
    have hus : Grammar.InOrder us := (htokens ▸ inOrder_lex).left.right
    have hamong : us ⊆ (lex source (o.fileFor file)).stream.ahead := fun t ht => by
      simp [htokens, ht]
    obtain ⟨-, -, -, -, i, j, hij, hj, hspan, -⟩ :=
      stretch_of_covers hamong hus (Grammar.placed_phrase hphrase hus).1
    exact ⟨i, j, by omega, hj, hspan⟩

variable {spans : Bool} {v : Json}

theorem number_of_holds_program (hv : (parse source file o).program.record spans = .ok v)
    {x : Number} (hx : v.Holds x) :
    (Scalar.number x).IsLiteral ∨
      spans = true ∧ ∃ k : Nat, k ≤ source.toList.length + 1 ∧ x = .int k := by
  obtain ⟨m, hm, ⟨span, rfl⟩ | ⟨hspans, hx⟩⟩ := (Node.holds_record_iff hv).1 hx
  · exact .inl ((isProgram_parse source file o).isLiteral_of_part hm)
  · obtain ⟨i, j, hi, hj, hspan⟩ := stretch_of_part_program hm
    rw [hspan] at hx
    exact .inr ⟨hspans, Span.holds_record_stretch hi hj hx⟩

/-- No number in the record of a program has too many digits, unless the text is so long that its
places have. -/
theorem isWritable_program (hv : (parse source file o).program.record spans = .ok v)
    (hlength : spans = true → source.length < 0x8000000000000000) : v.isWritable = true := by
  rw [Json.isWritable_iff]
  intro x hx
  obtain h | ⟨hspans, k, hk, rfl⟩ := number_of_holds_program hv hx
  · exact h.isWritable
  · have hlong := hlength hspans
    rw [String.length_toList] at hk
    exact Number.isWritable_of_le (by omega)

variable (source file o) in
theorem exists_dump_program (indent : Option Int)
    (hlength : spans = true → source.length < 0x8000000000000000) :
    ∃ v, (parse source file o).program.record spans = .ok v ∧
      (parse source file o).program.dump spans indent = .ok (v.text indent) := by
  obtain ⟨v, hv⟩ := (isProgram_parse source file o).exists_record spans
  exact ⟨v, hv, Node.dump_of_writable indent hv (isWritable_program hv hlength)⟩

end Programs

/-- What is left of any source text, under any options and whatever is wrong with it, is fit for
each use. It is well-formed, and its names are read as single identifiers. It has a text; a walk
passes through all of it; and it has a JSON text without spans and, if the length of the source fits
into a signed 64-bit word, with spans. The numbers that the text is written with are those of
literals, which have few enough digits, and those of places, which do not go beyond the source. -/
theorem program_consumed (source : String) (file : Option String) (o : Options) :
    let program := (parse source file o).program
    program.IsProgram ∧
    (∀ name span, .identifier name span ∈ program.walk.visited → ∀ file', ∃ t,
      (lex name file').stream.ahead = [t] ∧ t.kind = .ident ∧ t.lexeme = name ∧
        (lex name file').diagnostics = []) ∧
    (∀ value span, .literal value span ∈ program.walk.visited → value.IsLiteral) ∧
    (∃ text, program.programText = .ok text) ∧
    program.walk.stop = none ∧
    (∀ spans indent, (spans = true → source.length < 0x8000000000000000) →
      ∃ text, program.dump spans indent = .ok text) ∧
    ∀ spans, ∃ v, program.record spans = .ok v ∧ ∀ x, v.Holds x →
      (Scalar.number x).IsLiteral ∨
        spans = true ∧ ∃ k : Nat, k ≤ source.toList.length + 1 ∧ x = .int k := by
  intro program
  have h : program.IsProgram := isProgram_parse source file o
  have hpart {m : Node} := Node.mem_visited_walk h.walk_stop (m := m)
  obtain ⟨text, htext, -⟩ := Node.exists_programText h
  refine ⟨h, fun name span hmem => (h.isName_of_part (hpart.1 hmem)).lex_name,
    fun value span hmem => h.isLiteral_of_part (hpart.1 hmem), ⟨text, htext⟩, h.walk_stop,
    fun spans indent hlength => ?_, fun spans => ?_⟩
  · obtain ⟨v, -, hdump⟩ := exists_dump_program source file o indent hlength
    exact ⟨v.text indent, hdump⟩
  · obtain ⟨v, hv⟩ := h.exists_record spans
    exact ⟨v, hv, fun x hx => number_of_holds_program hv hx⟩

end RuleLang
