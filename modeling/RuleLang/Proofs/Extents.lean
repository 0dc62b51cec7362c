import RuleLang.Proofs.Grammar.Extents
import RuleLang.Proofs.Token.Tiling

/-!
Where the parts of a program stand in its source text (`nodes_nested`).
-/
namespace RuleLang

open Grammar

section Tokens

variable {source file : String} {ts : List Token} {span : Span} {t : Token}

theorem exists_stretch (h : t ∈ (lex source file).stream.ahead) :
    ∃ i j, i < j ∧ j ≤ source.toList.length ∧ t.span = .stretch file source.toList i j := by
  obtain ⟨⟨p, w⟩, hmem, rfl⟩ := List.mem_map.1 h
  obtain ⟨i, j, hij, hj, hspan, -⟩ := stretch_of_mem hmem
  exact ⟨i, j, hij, hj, hspan⟩

theorem inOrder_lex : InOrder (lex source file).stream.ahead := by
  refine ⟨fun t ht => ?_, ?_⟩
  · obtain ⟨i, j, hij, -, hspan⟩ := exists_stretch ht
    rw [hspan]
    exact Int.ofNat_lt.2 hij
  · exact ((List.pairwise_append.1 pairwise_tokens).1).imp And.right

/-- Tokens cover a stretch of the source text. -/
theorem stretch_of_covers (h : ts ⊆ (lex source file).stream.ahead) (hts : InOrder ts)
    (hspan : Covers ts span) : ∃ first ∈ ts.head?, ∃ last ∈ ts.getLast?, ∃ i j : Nat, i < j ∧
      j ≤ source.toList.length ∧ span = .stretch file source.toList i j ∧
      first.span.start = i ∧ last.span.stop = j := by
  obtain ⟨first, hfirst, last, hlast, rfl⟩ := hspan
  obtain ⟨i, k, hik, -, hleft⟩ := exists_stretch (h (List.mem_of_head? hfirst))
  obtain ⟨l, j, hlj, hj, hright⟩ := exists_stretch (h (List.mem_of_getLast? hlast))
  have hstart : first.span.start = i := by rw [hleft]; rfl
  have hstop : last.span.stop = j := by rw [hright]; rfl
  have hlt := hts.nonempty last (List.mem_of_getLast? hlast)
  have hle := hts.first_le hfirst (List.mem_of_getLast? hlast)
  refine ⟨first, hfirst, last, hlast, i, j, by omega, hj, ?_, hstart, hstop⟩
  rw [hleft, hright]
  rfl

end Tokens

section Programs

variable (source : String) (file : Option String) (o : Options)

theorem span_program : (parse source file o).program.span =
    .stretch (o.fileFor file) source.toList 0 source.toList.length := by
  have hlast : (lex source (o.fileFor file)).stream.last.span =
      .stretch (o.fileFor file) source.toList source.toList.length source.toList.length := by
    rw [← Span.between_prefixes _ List.prefix_rfl List.prefix_rfl]
    rfl
  change wholeSpan _ = _
  rw [wholeSpan, hlast]
  rfl

variable {source file o} {n m : Node}

/-- Each part below a program is read from some of the tokens of its source text. -/
theorem isRead_of_part_program (hn : n ∈ (parse source file o).program.children)
    (hm : m.Part n) : IsRead o.levels (lex source (o.fileFor file)).stream.ahead m :=
  isRead_of_part_nodes endsOnce_lex (fun _ => isEmpty_of_mem_lex) hn hm

theorem nested_program : (parse source file o).program.Nested := by
  have hstatements : Arranged (lex source (o.fileFor file)).stream.ahead
      (parse source file o).program.children :=
    arranged_nodes endsOnce_lex (fun _ => isEmpty_of_mem_lex) inOrder_lex
  have hspan := span_program source file o
  have hstart : (parse source file o).program.span.start = 0 := by rw [hspan]; rfl
  have hstop : (parse source file o).program.span.stop = source.toList.length := by
    rw [hspan]
    rfl
  refine ⟨by omega, fun c hc => ?_, hstatements.behind⟩
  obtain ⟨t, ht, u, hu, hcstart, hcstop⟩ := hstatements.among c hc
  obtain ⟨i, k, -, -, ht⟩ := exists_stretch ht
  obtain ⟨l, j, -, hj, hu⟩ := exists_stretch hu
  rw [hstart, hstop, hcstart, hcstop, ht, hu]
  exact ⟨Int.natCast_nonneg i, Int.ofNat_le.2 hj⟩

/-- The children of each part of a program lie within it, one behind the other. -/
theorem nested_of_part_program (hm : m.Part (parse source file o).program) : m.Nested := by
  cases hm with
  | self => exact nested_program
  | child hc hm =>
    obtain ⟨pre, us, post, htokens, hphrase⟩ := isRead_of_part_program hc hm
    have hus : InOrder us := (htokens ▸ inOrder_lex).left.right
    obtain ⟨hcovers, harranged⟩ := placed_phrase hphrase hus
    exact nested_of_covers hus hcovers harranged

end Programs

/-- The extents in a program that was read from source text. Its own one is the whole text. Every
other part stands for the tokens that it is read from, which are a stretch of the text from the
start of the first one to the stop of the last one: those of an expression with all parentheses
around it, and those of a statement with the semicolon behind it. Children lie within their parents,
one behind the other, and a walk visits the parts by where they begin. -/
theorem nodes_nested (source : String) (file : Option String) (o : Options) :
    let text := source.toList
    let name := o.fileFor file
    let tokens := (lex source name).stream.ahead
    let program := (parse source file o).program
    program.walk.stop = none ∧ program.span = .stretch name text 0 text.length ∧
    (∃ rest, program.walk.visited = program :: rest ∧
      ∀ n ∈ rest, ∃ pre us post, tokens = pre ++ us ++ post ∧ Phrase o.levels pre us post n ∧
        ∃ first ∈ us.head?, ∃ last ∈ us.getLast?, ∃ i j : Nat, i < j ∧ j ≤ text.length ∧
          n.span = .stretch name text i j ∧ first.span.start = i ∧ last.span.stop = j) ∧
    (∀ n ∈ program.walk.visited,
      (∀ c ∈ n.children, c ∈ program.walk.visited ∧
        n.span.start ≤ c.span.start ∧ c.span.stop ≤ n.span.stop) ∧
      n.children.Pairwise fun c d => c.span.stop ≤ d.span.start) ∧
    program.walk.visited.Pairwise fun n m => n.span.start ≤ m.span.start := by
  intro text name tokens program
  have hstop : program.walk.stop = none := (isProgram_parse source file o).walk_stop
  refine ⟨hstop, span_program source file o, ⟨_, Node.visited_walk hstop, fun n hn => ?_⟩,
    fun n hn => ?_, Node.pairwise_visited hstop fun m => nested_of_part_program⟩
  · obtain ⟨c, hc, hn⟩ := List.mem_flatMap.1 hn
    have hpart := (Node.mem_visited_walk (Node.children_unended hstop c hc)).1 hn
    obtain ⟨pre, us, post, htokens, hphrase⟩ := isRead_of_part_program hc hpart
    have hus : InOrder us := (htokens ▸ inOrder_lex).left.right
    exact ⟨pre, us, post, htokens, hphrase,
      stretch_of_covers (fun t ht => htokens ▸ by simp [ht]) hus (placed_phrase hphrase hus).1⟩
  · have hpart := (Node.mem_visited_walk hstop).1 hn
    have hnested := nested_of_part_program hpart
    refine ⟨fun c hc => ⟨(Node.mem_visited_walk hstop).2 ?_, hnested.within c hc⟩, hnested.behind⟩
    exact (Node.Part.child hc .self).trans hpart

end RuleLang
