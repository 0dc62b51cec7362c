import RuleLang.Proofs.Text.Conveyed
import RuleLang.Proofs.Token.Spacing

/-!
Words that are printed and then read from a file. Only string literals hold characters that are not
plain, so that a printed text is read as the same words, but for what is lost of the texts that its
literals stand for (`Printed.wordsOf_conveyed`).
-/
namespace RuleLang

open Text

/-- The value as it is read. -/
def Scalar.conveyed : Scalar → Scalar
  | .text s => .text (conveyedValue s)
  | value => value

/-- The word as it is read. -/
def Word.conveyed (w : Word) : Word :=
  { w with lexeme := Text.conveyed w.lexeme, value := w.value.conveyed }

theorem Word.conveyed_of_plain {w : Word} (hlexeme : Plain w.lexeme)
    (hvalue : w.value.conveyed = w.value) : w.conveyed = w := by
  rw [Word.conveyed, Text.conveyed_of_plain hlexeme, hvalue]

/-- How a character of a literal is read. -/
def StringPiece.ofUnified (c : Char) : StringPiece := if c = '\r' then .raw '\n' else .ofChar c

namespace StringPiece

theorem written_ofUnified (c : Char) :
    (ofUnified c).written = (escapeLiteralChar c).map unified := by
  unfold ofUnified
  split
  · rename_i h
    rw [h]
    decide
  · rename_i h
    rw [written_ofChar]
    obtain ⟨d, hescape, ⟨-, hd⟩, -⟩ | ⟨hescape, -⟩ := escapeLiteralChar_cases c
    · simp [hescape, unified, hd]
    · simp [hescape, unified, h]

theorem meaning_ofUnified (c : Char) : (ofUnified c).meaning = [unified c] := by
  unfold ofUnified unified
  split
  · rfl
  · exact meaning_ofChar c

theorem proper_ofUnified (c : Char) : (ofUnified c).Proper := by
  unfold ofUnified
  split
  · exact ⟨by decide, by decide⟩
  · exact proper_ofChar c

end StringPiece

theorem conveyed_word_text (s : String) : (Scalar.word (.text s)).conveyed =
    ⟨.string, '"' :: (conveyedBody s ++ ['"']), .text (conveyedValue s), []⟩ := by
  have hlexeme := conveyed_literal s []
  have hnil : Text.conveyed [] = [] := rfl
  rw [hnil] at hlexeme
  simp only [Word.conveyed, Scalar.word, Scalar.conveyed, List.cons_append, hlexeme]

/-- The literal of a text as it is read stands for what is left of the text. -/
theorem spells_conveyed_text (s : String) :
    Spells ('"' :: (conveyedBody s ++ ['"'])) [(Scalar.word (.text s)).conveyed] := by
  have hproper : ∀ p ∈ (stripFrom 0 s.toList).map StringPiece.ofUnified, p.Proper :=
    List.forall_mem_map.2 fun c _ => StringPiece.proper_ofUnified c
  have hbody : ((stripFrom 0 s.toList).map StringPiece.ofUnified).flatMap StringPiece.written =
      conveyedBody s := by
    simp only [List.flatMap_map, StringPiece.written_ofUnified, conveyedBody, List.map_flatMap]
  have hvalue : ((stripFrom 0 s.toList).map StringPiece.ofUnified).flatMap StringPiece.meaning =
      (stripFrom 0 s.toList).map unified := by
    simp only [List.flatMap_map, StringPiece.meaning_ofUnified, ← List.map_eq_flatMap]
  intro rest _
  rw [conveyed_word_text]
  simpa [hbody, hvalue, conveyedValue] using wordsOf_pieces hproper rest

/-! ## Printed texts -/

theorem isPlain_of_isNamePart {c : Char} (h : Word.isNamePart c = true) : IsPlain c := by
  constructor
  · rintro rfl
    exact absurd h (by decide)
  · rintro rfl
    exact absurd h (by decide)

theorem IsName.plain {name : String} (h : IsName name) : Plain name.toList := by
  obtain ⟨⟨c, cs, hcs, hstart, hparts⟩, -⟩ := h
  rw [hcs]
  exact List.forall_mem_cons.2 ⟨isPlain_of_isNamePart (Word.isNamePart_of_isNameStart hstart),
    fun d hd => isPlain_of_isNamePart (hparts d hd)⟩

theorem isPlain_of_isDigit {c : Char} (h : c.isDigit = true) : IsPlain c :=
  isPlain_of_isNamePart (isNamePart_of_isDigit h)

/-- The words of one spelling hold plain characters. -/
theorem plain_of_spelling {text : String} {kind : Token.Kind}
    (h : (text, kind) ∈ Token.Kind.spellings) : Plain text.toList := by
  have hall : ∀ p ∈ Token.Kind.spellings, Plain p.1.toList := by decide
  exact hall _ h

theorem plain_operator {operator : String} (h : operator ∈ operatorStrengths.map Prod.fst) :
    Plain operator.toList := by
  have hall : ∀ operator ∈ operatorStrengths.map Prod.fst, Plain operator.toList := by
    decide
  exact hall _ h

/-- The number of a literal is written in plain characters. -/
theorem plain_number {n : Number} (h : (Scalar.number n).IsLiteral) :
    Plain (n.write .source).toList := by
  cases n with
  | int n =>
    obtain ⟨k, rfl⟩ := Int.eq_ofNat_of_zero_le h.1
    rw [Number.toList_write_ofNat]
    exact fun c hc => isPlain_of_isDigit (Decimal.isDigit_of_mem_toDigits k c hc)
  | float x =>
    obtain ⟨m, rfl⟩ := h
    obtain ⟨whole, fraction, ⟨htext, -, -, hwhole, hfraction⟩, -⟩ := Double.ofDecimal_write m
    rw [Number.write, htext]
    refine List.forall_mem_append.2 ⟨fun c hc => isPlain_of_isDigit (hwhole c hc), ?_⟩
    exact List.forall_mem_cons.2 ⟨by decide, fun c hc => isPlain_of_isDigit (hfraction c hc)⟩

/-- A piece of a printed text is read in the same way whatever follows, and spells its words as they
are read. It begins with the same character. -/
structure Conveys (cs ds : List Char) (ws : List Word) : Prop where
  conveyed : ∀ rest, Text.conveyed (cs ++ rest) = ds ++ Text.conveyed rest
  spells : Spells ds (ws.map Word.conveyed)
  head : ds.head? = cs.head?

namespace Conveys

variable {cs ds : List Char} {ws : List Word}

theorem of_plain {w : Word} (h : Plain cs) (hspells : Spells cs [w])
    (hw : w.conveyed = w) : Conveys cs cs [w] where
  conveyed := conveyed_append h
  spells := by simpa [hw] using hspells
  head := rfl

/-- A word of one spelling is read as it is. -/
theorem of_fixed {text : String} (h : Plain text.toList)
    (hspells : Spells text.toList [Word.fixed text]) :
    Conveys text.toList text.toList [Word.fixed text] :=
  of_plain h hspells (Word.conveyed_of_plain h rfl)

theorem append {cs' ds' : List Char} {ws' : List Word} (h : Conveys cs ds ws)
    (h' : Conveys cs' ds' ws') (hends : ∀ rest, Ends rest → Ends (cs' ++ rest)) :
    Conveys (cs ++ cs') (ds ++ ds') (ws ++ ws') where
  conveyed rest := by
    rw [List.append_assoc, h.conveyed, h'.conveyed, List.append_assoc]
  spells := by
    rw [List.map_append]
    refine h.spells.append h'.spells fun rest hrest => ?_
    have hhead := hends rest hrest
    rwa [Ends, List.head?_append, ← h'.head, ← List.head?_append] at hhead
  head := by rw [List.head?_append, List.head?_append, h.head, h'.head]

/-- One plain character in front of a piece. -/
theorem cons {c : Char} {vs : List Word} (hc : IsPlain c) (h : Conveys cs ds ws)
    (hspells : Spells (c :: ds) (vs.map Word.conveyed)) : Conveys (c :: cs) (c :: ds) vs where
  conveyed rest := by
    rw [List.cons_append, ← List.singleton_append,
      conveyed_append (List.forall_mem_singleton.2 hc), h.conveyed]
    rfl
  spells := hspells
  head := rfl

/-- A string literal is read as the literal of what is left of its text. -/
theorem text (s : String) : Conveys ('"' :: s.toList.flatMap escapeLiteralChar ++ ['"'])
    ('"' :: (conveyedBody s ++ ['"'])) [Scalar.word (.text s)] where
  conveyed rest := by simpa using conveyed_literal s rest
  spells := spells_conveyed_text s
  head := rfl

end Conveys

theorem fixed_mark {c : Char} (hc : c ∈ closedMarks) : IsPlain c ∧
    (Word.fixed (String.singleton c)).conveyed = Word.fixed (String.singleton c) := by
  have hplain : Plain closedMarks := by decide
  refine ⟨hplain c hc, Word.conveyed_of_plain ?_ rfl⟩
  simpa [Word.fixed, Plain] using hplain c hc

/-- A printed text is read as its words are read. -/
theorem Printed.exists_conveyed {cs : List Char} {ws : List Word} (h : Printed cs ws) :
    ∃ ds, Conveys cs ds ws := by
  induction h with
  | nil => exact ⟨[], fun _ => rfl, spells_nil, rfl⟩
  | append _ _ hends ih ih' =>
    obtain ⟨ds, hds⟩ := ih
    obtain ⟨ds', hds'⟩ := ih'
    exact ⟨_, hds.append hds' hends⟩
  | blank hc _ ih =>
    obtain ⟨ds, hds⟩ := ih
    obtain rfl | rfl := hc
    · exact ⟨_, hds.cons (by decide) (hds.spells.space rfl)⟩
    · exact ⟨_, hds.cons (by decide) (hds.spells.space rfl)⟩
  | mark hc _ ih =>
    obtain ⟨ds, hds⟩ := ih
    obtain ⟨hplain, hword⟩ := fixed_mark hc
    refine ⟨_, hds.cons hplain ?_⟩
    rw [List.map_cons, hword]
    exact hds.spells.mark hc
  | bang _ hopens ih =>
    obtain ⟨ds, hds⟩ := ih
    obtain ⟨c, cs, rfl, hc⟩ := hopens
    obtain ⟨tail, rfl⟩ := List.head?_eq_some_iff.1 hds.head
    exact ⟨_, hds.cons (by decide) (hds.spells.bang ⟨c, tail, rfl, hc⟩)⟩
  | operator h =>
    exact ⟨_, .of_fixed (plain_operator h) (spells_operator h)⟩
  | keyword h =>
    have hplain : ∀ text ∈ Token.Kind.keywords.map Prod.fst, Plain text.toList := by
      decide
    exact ⟨_, .of_fixed (hplain _ h) (spells_keyword h)⟩
  | equal => exact ⟨_, .of_fixed (show Plain "=".toList by decide) Printed.equal.spells⟩
  | name h => exact ⟨_, .of_plain h.plain (spells_name h) (Word.conveyed_of_plain h.plain rfl)⟩
  | @literal value text h htext =>
    have hspells := (Printed.literal h htext).spells
    cases value with
    | null => exact h.elim
    | bool b =>
      cases b with
      | true =>
        cases htext
        exact ⟨_, .of_fixed (by decide) hspells⟩
      | false =>
        cases htext
        exact ⟨_, .of_fixed (by decide) hspells⟩
    | number n =>
      obtain rfl := Except.ok.inj (h.literalText_number.symm.trans htext)
      exact ⟨_, .of_plain (plain_number h) hspells (Word.conveyed_of_plain (plain_number h) rfl)⟩
    | text s =>
      cases htext
      rw [String.toList_ofList]
      exact ⟨_, .text s⟩

/-- The words of a printed text as it is read. -/
theorem Printed.wordsOf_conveyed {cs : List Char} {ws : List Word} (h : Printed cs ws) :
    wordsOf (Text.conveyed cs) = ws.map Word.conveyed := by
  obtain ⟨ds, hds⟩ := h.exists_conveyed
  have htext : Text.conveyed cs = ds := by
    have hall := hds.conveyed []
    rwa [List.append_nil, show Text.conveyed [] = [] from rfl, List.append_nil] at hall
  rw [htext]
  simpa using hds.spells [] ends_nil

end RuleLang
