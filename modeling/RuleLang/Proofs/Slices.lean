import RuleLang.Proofs.Extents
import RuleLang.Proofs.Grammar.Alike
import RuleLang.Proofs.Token.Cutting

/-!
The text of a node is the node again. The characters that the span of a part of a program holds have
the words that the part was read from, so that by themselves they are read as a tree of its shape
(`slices_read`).
-/
namespace RuleLang

open Grammar

section Slices

variable {source : String} {file : Option String} {o : Options} {pre us post : List Token}
  {n : Node}
  (h : (lex source (o.fileFor file)).stream.ahead = pre ++ us ++ post)
  (hn : Phrase o.levels pre us post n)
include h hn

/-- The text of a node has the words of its tokens. -/
theorem slice_alike (name : String) :
    ((lex source (o.fileFor file)).stream.atEnd.prepend us).Alike .nothing
      (lex (n.span.slice source) name).stream := by
  have hus : us ⊆ (lex source (o.fileFor file)).stream.ahead := fun t ht => h ▸ by simp [ht]
  have horder : InOrder us := (h ▸ inOrder_lex).left.right
  obtain ⟨first, hfirst, last, hlast, hspan⟩ := (placed_phrase hn horder).1
  have hstart : n.span.start = first.span.start := by rw [hspan]; rfl
  have hstop : n.span.stop = last.span.stop := by rw [hspan]; rfl
  refine ⟨?_, rfl, rfl, nofun, nofun⟩
  rw [TokenStream.ahead_prepend, TokenStream.atEnd, List.append_nil]
  refine Token.forall₂_alike ?_ (fun t ht => isEmpty_of_mem_lex (hus ht))
    fun t => isEmpty_of_mem_lex
  rw [word_lex, words_slice h hfirst hlast hstart hstop]

end Slices

section Reading

variable {s s' : TokenStream} {levels : Nat} {us : List Token}

/-- The words of an expression are read as a rule. -/
theorem rule_read_alike (d : Derivation .expression us) (hd : d.nesting ≤ levels)
    (h : (s.atEnd.prepend us).Alike .nothing s') :
    ∃ e : Node, (Goal.rule.read levels s').outcome = .ok (some e) ∧
      (Goal.rule.read levels s').faults = [] ∧ e.sameShape d.value = true := by
  have hmatch := rule_uniform levels _ _ h
  rw [rule_complete (.bare d) hd s] at hmatch
  generalize hread : rule levels s' = r at hmatch
  cases hmatch with
  | @ok _ e _ _ hshape =>
    rw [Goal.read, hread]
    exact ⟨e, rfl, rfl, (Node.sameShape_iff e d.value).2 hshape.bare.symm⟩

/-- The words of a statement are read as that statement alone. -/
theorem allStatements_alone {n : Node} (hn : IsStatementOf levels us n)
    (once : ∀ t ∈ us, t.kind ≠ .eof)
    (hfull : ∀ t ∈ us, t.kind = .semicolon → t.span.isEmpty = .ok false)
    (h : (s.atEnd.prepend us).Alike .nothing s') :
    (allStatements levels s').faults = [] ∧
      ∃ m : Node, (allStatements levels s').nodes = [m] ∧ m.sameShape n = true := by
  obtain ⟨hnodes, hfaults⟩ := allStatements_alike levels h
  obtain ⟨halone, hnone⟩ := hn.allStatements once hfull s
  rw [halone] at hnodes
  rw [hnone] at hfaults
  obtain ⟨m, hm, hshape⟩ := List.map_eq_singleton_iff.1 (hnodes.symm : List.map _ _ = [n.bare])
  exact ⟨List.forall₂_nil_left_iff.1 hfaults, m, hm, (Node.sameShape_iff m n).2 hshape⟩

end Reading

/-- The text of any part of a program, which its span cuts out of the source, is read by itself
under the same limit as a tree of the same shape: that of an expression as a rule, and that of a
statement as a program of this statement only. -/
theorem slices_read (source : String) (file : Option String) (o : Options) :
    let program := (parse source file o).program
    ∃ rest, program.walk.visited = program :: rest ∧ ∀ n ∈ rest,
      let text := n.span.slice source
      (n.IsExpression ∧ ∀ name, ∃ e : Node,
        (Goal.rule.read o.levels (lex text name).stream).outcome = .ok (some e) ∧
        (Goal.rule.read o.levels (lex text name).stream).faults = [] ∧ e.sameShape n = true) ∨
      (n.IsStatement ∧ ∀ name, (parse text name o).faults = [] ∧
        ∃ m, (parse text name o).program.children = [m] ∧ m.sameShape n = true) := by
  intro program
  have hstop : program.walk.stop = none := (isProgram_parse source file o).walk_stop
  refine ⟨_, Node.visited_walk hstop, fun n hn => ?_⟩
  obtain ⟨c, hc, hn⟩ := List.mem_flatMap.1 hn
  have hpart := (Node.mem_visited_walk (Node.children_unended hstop c hc)).1 hn
  obtain ⟨pre, us, post, htokens, hphrase⟩ := isRead_of_part_program hc hpart
  have halike := slice_alike htokens hphrase
  have hus : us ⊆ (lex source (o.fileFor file)).stream.ahead := fun t ht => htokens ▸ by simp [ht]
  have hmade : ∀ t ∈ us, t.word.WellMade := fun t ht => wellMade_of_mem_lex (hus ht)
  cases hphrase with
  | expression d hd free =>
    exact .inl ⟨isPhrase_value d hmade, fun name => rule_read_alike d hd (halike name)⟩
  | statement c hc stop hstop hend =>
    have hn : IsStatementOf o.levels _ (c.closed stop) := ⟨_, c, hc, stop, hstop, rfl, rfl⟩
    have hvalue := isStatement_value c fun t ht => hmade t (List.mem_append_left _ ht)
    refine .inr ⟨?_, fun name => allStatements_alone hn (fun t ht => endsOnce_lex t (hus ht))
      (fun t ht => isEmpty_of_mem_lex (hus ht)) (halike _)⟩
    cases stop with
    | none => exact hvalue
    | some t => exact hvalue.withSpan _

end RuleLang
