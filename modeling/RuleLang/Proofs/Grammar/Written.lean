import RuleLang.Proofs.Grammar.Clauses
import RuleLang.Proofs.Grammar.Limits
import RuleLang.Proofs.Grammar.Printed
import RuleLang.Proofs.Token.Lexing

/-!
Reading what was written. Tokens with the words of a tree are read as that tree where its nesting
fits the limit; otherwise reading stops at a token that is nested too deep. So the statements of a
written program are read up to the first one that does not fit (`statements_written`).
-/
namespace RuleLang

namespace Node

/-- The levels of nesting of a statement. -/
def statementNesting : Node → Nat
  | .variableDeclaration _ initializer _ => 1 + initializer.nesting
  | .expressionStatement expression _ => 1 + expression.nesting
  | _ => 0

/-- The levels of nesting of a program: those of its deepest statement. -/
def programNesting : Node → Nat
  | .program statements _ => (statements.map statementNesting).foldr max 0
  | _ => 0

end Node

namespace Grammar

open Reader

/-- What comes of reading a tree that was written: the tree again, but for places, if its nesting
fits the levels; otherwise reading stops. -/
structure Rereads (r : Reader Node) (s s' : TokenStream) (n : Node) (fits : Prop) : Prop where
  whole : fits → ∃ m, r s = .ok m s' ∧ m.bare = n.bare
  tooDeep : ¬fits → ∃ t u, r s = .error (.tooDeep t) u

theorem Rereads.of_eq {r r' : Reader Node} {s s' t : TokenStream} {n : Node} {fits : Prop}
    (h : r s = r' t) (hr : Rereads r' t s' n fits) : Rereads r s s' n fits :=
  ⟨h ▸ hr.whole, h ▸ hr.tooDeep⟩

theorem Rereads.bind {r : Reader Node} {f : Node → Reader Node} {s s' s'' : TokenStream}
    {n n' : Node} {fits : Prop} (h : Rereads r s s' n fits)
    (hf : ∀ m, m.bare = n.bare → ∃ m', f m s' = .ok m' s'' ∧ m'.bare = n'.bare) :
    Rereads (r >>= f) s s'' n' fits where
  whole hfits := by
    obtain ⟨m, hm, hbare⟩ := h.whole hfits
    rw [bind_of_ok hm]
    exact hf m hbare
  tooDeep hdeep := by
    obtain ⟨t, u, ht⟩ := h.tooDeep hdeep
    exact ⟨t, u, bind_of_error ht⟩

/-! ## Expressions -/

/-- A phrase that is nested too deep is not read, and nothing else is wrong with it. -/
theorem expression_tooDeep {ts : List Token} (d : Derivation .expression ts) {levels : Nat}
    (h : levels < d.nesting) {s : TokenStream} (hs : Stops .expression s.current.kind) :
    ∃ t u, expression levels (s.prepend ts) = .error (.tooDeep t) u := by
  have hread : expression d.nesting (s.prepend ts) = .ok d.value s :=
    reads_of_derivation d (Nat.le_refl _) hs
  rcases expression_limited (Nat.le_of_lt h) (s.prepend ts) with hsame | hdeep
  · obtain ⟨us, d', hus, -, hlevels⟩ := expression_sound levels (hsame.trans hread)
    obtain rfl : ts = us := prepend_inj hus
    have := subsingleton_derivation .expression ts
    rw [Subsingleton.elim d' d] at hlevels
    omega
  · exact hdeep

variable (levels : Nat) {n : Node} {ts : List Token} {s : TokenStream}

theorem expression_written (h : n.IsExpression) (hts : ts.map Token.word = n.words)
    (hs : s.current.kind = .semicolon) :
    Rereads (expression levels) (s.prepend ts) s n (1 + n.nesting ≤ levels) := by
  obtain ⟨d, hvalue, hnesting⟩ := expression_derives h hts
  have hstops : Stops .expression s.current.kind := stops_of_end (.inl hs)
  constructor
  · intro hfits
    exact ⟨d.value, reads_of_derivation d (by omega) hstops, hvalue⟩
  · intro hdeep
    exact expression_tooDeep d (by omega) hstops

/-! ## Statements -/

/-- The semicolon of a source text is not empty. -/
theorem isEmpty_semicolon {t : Token} (ht : t.word = .fixed ";") (hplaced : t.Placed) :
    t.span.isEmpty = .ok false :=
  hplaced.isEmpty_span (congrArg Word.lexeme ht : t.lexeme.toList = [';'])

/-- A semicolon behind a statement only widens its place. -/
theorem terminator_written (e : SyntaxError) (m : Node) {t : Token} (ht : t.word = .fixed ";")
    (hplaced : t.Placed) (s : TokenStream) :
    ∃ m', (terminator e >>= terminated m) (s.prepend [t]) = .ok m' s ∧ m'.bare = m.bare := by
  have hkind : t.kind = .semicolon := kind_of_word ht
  refine ⟨m.withSpan (m.span.merge t.span), ?_, Node.bare_withSpan _ _⟩
  have hread : terminator e (s.prepend [t]) = .ok (some t) s := by
    have hcurrent : (s.prepend [t]).current.kind = .semicolon := hkind
    rw [terminator_semicolon hcurrent, TokenStream.advance_prepend_cons hplaced.notEnd]
    rfl
  rw [bind_of_ok hread]
  simp only [terminated, isEmpty_semicolon ht hplaced]
  rfl

/-- A statement that was written, with its semicolon. -/
theorem statement_written (h : n.IsStatement) (hts : ts.map Token.word = n.statementWords)
    (hplaced : ∀ t ∈ ts, t.Placed) (s : TokenStream) :
    Rereads (statement levels) (s.prepend ts) s n (n.statementNesting ≤ levels) := by
  cases h with
  | @variableDeclaration name inner span initializer h hi =>
    obtain ⟨word, tail, rfl, hword, htail⟩ := List.map_eq_cons_iff.1 hts
    obtain ⟨t, tail, rfl, ht, htail⟩ := List.map_eq_cons_iff.1 htail
    obtain ⟨equal, tail, rfl, hequal, htail⟩ := List.map_eq_cons_iff.1 htail
    obtain ⟨us, last, rfl, hus, hlast⟩ := List.map_eq_append_iff.1 htail
    obtain ⟨semicolon, rfl, hsemicolon⟩ := List.map_eq_singleton_iff.1 hlast
    have hsplit : s.prepend (word :: t :: equal :: (us ++ [semicolon])) =
        ((s.prepend [semicolon]).prepend us).prepend [word, t, equal] := by
      rw [← TokenStream.prepend_append, ← TokenStream.prepend_append]
      rfl
    have hlast : semicolon.Placed := hplaced semicolon (by simp)
    have hread := expression_written levels hi hus
      (s := s.prepend [semicolon]) (kind_of_word hsemicolon)
    have hdeclaration : Rereads (declaration levels)
        (((s.prepend [semicolon]).prepend us).prepend [word, t, equal]) (s.prepend [semicolon])
        (.variableDeclaration (.identifier name inner) initializer span)
        (1 + initializer.nesting ≤ levels) := by
      refine .of_eq (declaration_prepend levels (kind_of_word hword) (kind_of_word ht)
        (kind_of_word hequal) _) (hread.bind fun m hm => ⟨_, rfl, ?_⟩)
      simp only [Node.bare, hm, lexeme_of_name ht]
    rw [hsplit]
    refine .of_eq (statement_of_var levels (kind_of_word hword)) (hdeclaration.bind fun m hm => ?_)
    obtain ⟨m', hread, hbare⟩ := terminator_written .semicolonAfterDeclaration m hsemicolon hlast s
    exact ⟨m', hread, hbare.trans hm⟩
  | @expressionStatement expression span h =>
    obtain ⟨us, last, rfl, hus, hlast⟩ := List.map_eq_append_iff.1 hts
    obtain ⟨semicolon, rfl, hsemicolon⟩ := List.map_eq_singleton_iff.1 hlast
    obtain ⟨d, -⟩ := expression_derives h hus
    have hlast : semicolon.Placed := hplaced semicolon (by simp)
    have hread := expression_written levels h hus
      (s := s.prepend [semicolon]) (kind_of_word hsemicolon)
    rw [TokenStream.prepend_append]
    have hne : ((s.prepend [semicolon]).prepend us).current.kind ≠ .var :=
      current_ne d _ (by decide)
    refine .of_eq (statement_of_ne_var levels hne) (hread.bind fun m hm => ?_)
    obtain ⟨m', hread, hbare⟩ := terminator_written .semicolonAfterExpression
      (.expressionStatement m m.span) hsemicolon hlast s
    refine ⟨m', hread, hbare.trans ?_⟩
    simp only [Node.bare, hm]

/-! ## Programs -/

theorem statementWords_ne_nil (h : n.IsStatement) : n.statementWords ≠ [] := by
  cases h with
  | variableDeclaration h hi => exact List.cons_ne_nil _ _
  | expressionStatement h => exact List.append_ne_nil_of_right_ne_nil _ (List.cons_ne_nil _ _)

/-- The statements of a program that was written are read up to the first one that is nested too
deep, and that one ends reading. -/
theorem statements_written {ns : List Node} (h : ∀ n ∈ ns, n.IsStatement)
    (hts : ts.map Token.word = ns.flatMap Node.statementWords) (hplaced : ∀ t ∈ ts, t.Placed)
    {count : Nat} (hcount : ts.length ≤ count) (hs : s.current.kind = .eof) :
    let read := statements levels count (s.prepend ts)
    let needed := (ns.map Node.statementNesting).foldr max 0
    read.nodes.map Node.bare =
      (ns.takeWhile fun n => n.statementNesting ≤ levels).map Node.bare ∧
    (needed ≤ levels → read.faults = []) ∧
    (levels < needed → ∃ t, read.faults = [.tooDeep t]) := by
  induction ns generalizing ts count with
  | nil =>
    obtain rfl := List.map_eq_nil_iff.1 hts
    have hread : statements levels count s = ⟨[], [], s⟩ := by
      cases count with
      | zero => rfl
      | succ count => rw [statements, if_pos hs]
    rw [TokenStream.prepend_nil, hread]
    exact ⟨rfl, fun _ => rfl, fun hlt => absurd hlt (Nat.not_lt_zero _)⟩
  | cons n ns ih =>
    obtain ⟨hn, hns⟩ := List.forall_mem_cons.1 h
    obtain ⟨us, vs, rfl, hus, hvs⟩ := List.map_eq_append_iff.1 hts
    obtain ⟨hplaced, hplaced'⟩ := List.forall_mem_append.1 hplaced
    have hne : us ≠ [] := by
      rintro rfl
      exact statementWords_ne_nil hn hus.symm
    have hpos : 0 < us.length := List.length_pos_iff.2 hne
    rw [List.length_append] at hcount
    obtain ⟨count, rfl⟩ : ∃ k, count = k + 1 := ⟨count - 1, by omega⟩
    have heof : ((s.prepend vs).prepend us).current.kind ≠ .eof :=
      current_ne_eof hne (fun t ht => (hplaced t ht).notEnd) _
    obtain ⟨hwhole, hdeep⟩ := statement_written levels hn hus hplaced (s.prepend vs)
    intro read needed
    have hneeded : needed =
        max n.statementNesting ((ns.map Node.statementNesting).foldr max 0) := rfl
    have hread : read = statements levels (count + 1) ((s.prepend vs).prepend us) := by
      rw [← TokenStream.prepend_append]
    rw [statements, if_neg heof] at hread
    by_cases hfits : n.statementNesting ≤ levels
    · obtain ⟨m, hm, hbare⟩ := hwhole hfits
      have hcount : vs.length ≤ count := by omega
      obtain ⟨hnodes, hfaults, hdeeper⟩ := ih hns hvs hplaced' hcount
      simp only [hm] at hread
      rw [hread, List.takeWhile_cons_of_pos (by simpa using hfits)]
      refine ⟨?_, fun hle => hfaults (by omega), fun hlt => hdeeper (by omega)⟩
      rw [List.map_cons, List.map_cons, hbare, hnodes]
    · obtain ⟨t, u, ht⟩ := hdeep hfits
      simp only [ht] at hread
      rw [hread, List.takeWhile_cons_of_neg (by simpa using hfits)]
      exact ⟨rfl, fun hle => absurd hle (by omega), fun _ => ⟨t, rfl⟩⟩

theorem statementNesting_le_length (h : n.IsStatement)
    (hts : ts.map Token.word = n.statementWords) : n.statementNesting ≤ ts.length := by
  have hexpression {e : Node} {us : List Token} (he : e.IsExpression)
      (hus : us.map Token.word = e.words) : 1 + e.nesting ≤ us.length := by
    obtain ⟨d, -, hnesting⟩ := expression_derives he hus
    exact hnesting ▸ nesting_le_length d
  cases h with
  | @variableDeclaration name inner span initializer h hi =>
    obtain ⟨us, vs, rfl, -, hvs⟩ := List.map_eq_append_iff.1
      (show ts.map Token.word = [.fixed "var", .name name, .fixed "="] ++
        (initializer.words ++ [.fixed ";"]) from hts)
    obtain ⟨vs, last, rfl, hvs, -⟩ := List.map_eq_append_iff.1 hvs
    have := hexpression hi hvs
    simp only [Node.statementNesting, List.length_append]
    omega
  | expressionStatement h =>
    obtain ⟨us, last, rfl, hus, -⟩ := List.map_eq_append_iff.1 hts
    have := hexpression h hus
    simp only [Node.statementNesting, List.length_append]
    omega

/-- A program that was written is nested no deeper than it has tokens. -/
theorem needed_le_length {ns : List Node} (h : ∀ n ∈ ns, n.IsStatement)
    (hts : ts.map Token.word = ns.flatMap Node.statementWords) :
    (ns.map Node.statementNesting).foldr max 0 ≤ ts.length := by
  induction ns generalizing ts with
  | nil => exact Nat.zero_le _
  | cons n ns ih =>
    obtain ⟨hn, hns⟩ := List.forall_mem_cons.1 h
    obtain ⟨us, vs, rfl, hus, hvs⟩ := List.map_eq_append_iff.1 hts
    have hrest := ih hns hvs
    have hstatement := statementNesting_le_length hn hus
    rw [List.map_cons, List.foldr_cons, List.length_append]
    omega

/-- If all statements of a program fit the levels, it has none that does not. -/
theorem takeWhile_of_needed_le {levels : Nat} {ns : List Node}
    (h : (ns.map Node.statementNesting).foldr max 0 ≤ levels) :
    (ns.takeWhile fun n => n.statementNesting ≤ levels) = ns := by
  induction ns with
  | nil => rfl
  | cons n ns ih =>
    rw [List.map_cons, List.foldr_cons, Nat.max_le] at h
    rw [List.takeWhile_cons_of_pos (by simpa using h.1), ih h.2]

end Grammar

end RuleLang
