import RuleLang.Proofs.Grammar.Derivation
import RuleLang.Proofs.Node.Shape
import RuleLang.Proofs.Node.Words

/-!
Derivations of written trees. The words of an expression follow the grammar: tokens with these words
have a derivation of the same tree, and the nesting of that derivation is counted on the tree
(`Node.nesting`, `expression_derives`); no phrase is nested
deeper than it has tokens (`nesting_le_length`).
-/
namespace RuleLang

namespace Node

/-- How many operators of the given strength the text of the node joins at its outermost level. -/
def chainLength (strength : Nat) : Node → Nat
  | .binary operator left _ _ =>
    if operatorStrength? operator = some strength then chainLength strength left + 1 else 0
  | _ => 0

/-- The levels of nesting of a node that stands where at least the given strength is needed; `inner`
are those of the node itself. -/
def guardedNesting (needed : Nat) (n : Node) (inner : Nat) : Nat :=
  if n.strength < needed then 1 + inner else inner

/-- The levels of nesting inside the text of an expression. -/
def nesting : Node → Nat
  | .call _ arguments _ => argumentNesting arguments
  | .unary _ operand _ => guardedNesting atomStrength operand operand.nesting
  | .binary operator left right _ =>
    let k := (operatorStrength? operator).getD 0
    let leftNesting := guardedNesting (leftNeeds k) left left.nesting
    let rightNesting := guardedNesting (k + 1) right right.nesting
    if k = comparisonStrength then max leftNesting rightNesting
    else max leftNesting (chainLength k left + 1 + rightNesting)
  | _ => 0
where
  /-- The levels of nesting of arguments, each of which is an expression again. -/
  argumentNesting : List Node → Nat
    | [] => 0
    | n :: ns => max (1 + n.nesting) (argumentNesting ns)

/-- A node joins no operators but those of its own strength. -/
theorem chainLength_of_ne {k : Nat} {n : Node} (h : n.strength ≠ k) : n.chainLength k = 0 := by
  cases n with
  | binary operator left right span =>
    rw [chainLength]
    split
    · rename_i hk
      exact absurd (by rw [strength, hk]; rfl) h
    · rfl
  | _ => rfl

theorem IsExpression.strength_pos {n : Node} (h : n.IsExpression) : 1 ≤ n.strength := by
  cases h with
  | @binary operator left right span h hl hr =>
    have hall : ∀ operator ∈ operatorStrengths.map Prod.fst,
        1 ≤ (operatorStrength? operator).getD 0 := by decide
    exact hall operator h
  | unary => exact (by decide : 1 ≤ prefixStrength)
  | _ => exact (by decide : 1 ≤ atomStrength)

end Node

namespace Grammar

namespace Tier

/-- How strongly the phrases of a tier hold their parts together. -/
def strength : Tier → Nat
  | .chain .disjunction => 1
  | .chain .conjunction => 2
  | .comparison => comparisonStrength
  | .chain .additive => 4
  | .chain .multiplicative => 5
  | .unary => prefixStrength
  | .primary => atomStrength

/-- The next tier. -/
def tighter : Tier → Tier
  | .chain c => c.operand
  | .comparison => .chain .additive
  | .unary => .primary
  | .primary => .primary

theorem strength_injective {y z : Tier} (h : y.strength = z.strength) : y = z := by
  revert h
  cases y with
  | chain c => cases c <;> cases z with
    | chain d => cases d <;> decide
    | _ => decide
  | _ => cases z with
    | chain d => cases d <;> decide
    | _ => decide

theorem strength_operand (c : Chain) : c.operand.strength = (Tier.chain c).strength + 1 := by
  cases c <;> rfl

theorem strength_tighter {y : Tier} (h : y ≠ .primary) :
    y.tighter.strength = y.strength + 1 := by
  cases y with
  | chain c => exact strength_operand c
  | primary => exact absurd rfl h
  | _ => rfl

end Tier

/-- Tokens from which a tier derives a tree of the shape of the node, with the given nesting. -/
def Derives (y : Tier) (ts : List Token) (n : Node) (m : Nat) : Prop :=
  ∃ d : Derivation (.tier y) ts, d.value.bare = n.bare ∧ d.nesting = m

/-- Tokens from which a chain of the given number of operators derives such a tree. -/
def Folds (c : Chain) (count : Nat) (ts : List Token) (n : Node) (m : Nat) : Prop :=
  ∃ d : Derivation (.folded c count) ts, d.value.bare = n.bare ∧ d.nesting = m

section Tiers

variable {ts : List Token} {n : Node} {m : Nat}

theorem Folds.derives {c : Chain} {count : Nat} (h : Folds c count ts n m) :
    Derives (.chain c) ts n m := by
  obtain ⟨d, hv, hn⟩ := h
  exact ⟨d.chain, hv, hn⟩

theorem Derives.folds {c : Chain} (h : Derives c.operand ts n m) : Folds c 0 ts n m := by
  obtain ⟨d, hv, hn⟩ := h
  exact ⟨d.first, hv, hn⟩

theorem Derives.loosen {y : Tier} (h : Derives y.tighter ts n m) : Derives y ts n m := by
  cases y with
  | chain c => exact (Derives.folds h).derives
  | comparison =>
    obtain ⟨d, hv, hn⟩ := h
    exact ⟨d.uncompared, hv, hn⟩
  | unary =>
    obtain ⟨d, hv, hn⟩ := h
    exact ⟨d.plain, hv, hn⟩
  | primary => exact h

/-- A phrase of a tier is one of each looser tier. -/
theorem Derives.of_le {y z : Tier} (h : Derives z ts n m) (hle : y.strength ≤ z.strength) :
    Derives y ts n m := by
  induction hk : z.strength - y.strength generalizing y with
  | zero =>
    obtain rfl : y = z := Tier.strength_injective (by omega)
    exact h
  | succ k ih =>
    have hy : y ≠ .primary := by
      rintro rfl
      have : z.strength ≤ atomStrength := by
        cases z with
        | chain c => cases c <;> decide
        | _ => decide
      change _ - atomStrength = _ at hk
      omega
    have hstrength := Tier.strength_tighter hy
    exact (ih (by omega) (by omega)).loosen

end Tiers

/-- Tokens with the words of an expression are derived by each tier that it is strong enough for. -/
def Derivable (n : Node) : Prop :=
  ∀ ts : List Token, ts.map Token.word = n.words →
    (∀ y : Tier, y.strength ≤ n.strength → Derives y ts n n.nesting) ∧
    ∀ c : Chain, (Tier.chain c).strength ≤ n.strength →
      Folds c (n.chainLength (Tier.chain c).strength) ts n n.nesting

theorem derivable_of_derives {n : Node} {y : Tier} (hy : n.strength = y.strength)
    (hc : ∀ c, y ≠ .chain c)
    (h : ∀ ts : List Token, ts.map Token.word = n.words → Derives y ts n n.nesting) :
    Derivable n := by
  intro ts hts
  refine ⟨fun z hz => (h ts hts).of_le (hy ▸ hz), fun c hle => ?_⟩
  have hne : n.strength ≠ (Tier.chain c).strength := by
    intro he
    exact hc c (Tier.strength_injective (hy.symm.trans he))
  have hstrength := Tier.strength_operand c
  rw [Node.chainLength_of_ne hne]
  exact ((h ts hts).of_le (by omega)).folds

theorem derivable_of_folds {n : Node} {c : Chain} (hy : n.strength = (Tier.chain c).strength)
    (h : ∀ ts : List Token, ts.map Token.word = n.words →
      Folds c (n.chainLength n.strength) ts n n.nesting) : Derivable n := by
  intro ts hts
  refine ⟨fun z hz => (h ts hts).derives.of_le (hy ▸ hz), fun d hle => ?_⟩
  by_cases he : n.strength = (Tier.chain d).strength
  · obtain rfl : c = d := Tier.chain.inj (Tier.strength_injective (hy.symm.trans he))
    rw [← he]
    exact h ts hts
  · have hstrength := Tier.strength_operand d
    rw [Node.chainLength_of_ne he]
    exact ((h ts hts).derives.of_le (by omega)).folds

/-! ## Words of tokens -/

theorem kind_of_word {t : Token} {w : Word} (h : t.word = w) : t.kind = w.kind :=
  congrArg Word.kind h

theorem lexeme_of_fixed {t : Token} {text : String} (h : t.word = .fixed text) :
    t.lexeme = text :=
  String.toList_inj.1 (congrArg Word.lexeme h)

theorem lexeme_of_name {t : Token} {name : String} (h : t.word = .name name) :
    t.lexeme = name :=
  String.toList_inj.1 (congrArg Word.lexeme h)

/-- Tokens of words in parentheses. -/
theorem exists_of_parentheses {ts : List Token} {ws : List Word}
    (h : ts.map Token.word = .fixed "(" :: (ws ++ [.fixed ")"])) :
    ∃ opening us closing, ts = opening :: (us ++ [closing]) ∧ opening.kind = .lparen ∧
      closing.kind = .rparen ∧ us.map Token.word = ws := by
  obtain ⟨opening, rest, rfl, hopening, hrest⟩ := List.map_eq_cons_iff.1 h
  obtain ⟨us, last, rfl, hus, hlast⟩ := List.map_eq_append_iff.1 hrest
  obtain ⟨closing, rfl, hclosing⟩ := List.map_eq_singleton_iff.1 hlast
  exact ⟨opening, us, closing, rfl, kind_of_word hopening, kind_of_word hclosing, hus⟩

/-- Tokens of words around an operator. -/
theorem exists_of_operator {ts : List Token} {ws vs : List Word} {operator : String}
    (h : ts.map Token.word = ws ++ .fixed operator :: vs) :
    ∃ us t rest, ts = us ++ t :: rest ∧ us.map Token.word = ws ∧ t.word = .fixed operator ∧
      rest.map Token.word = vs := by
  obtain ⟨us, tail, rfl, hus, htail⟩ := List.map_eq_append_iff.1 h
  obtain ⟨t, rest, rfl, ht, hrest⟩ := List.map_eq_cons_iff.1 htail
  exact ⟨us, t, rest, rfl, hus, ht, hrest⟩

/-! ## Guarded parts -/

section Guarded

variable {n : Node} {ts : List Token}

theorem derives_primary_of_lt (hd : Derivable n) (hpos : 1 ≤ n.strength) {needed : Nat}
    (hlt : n.strength < needed) (hts : ts.map Token.word = n.guardedWords needed n.words) :
    Derives .primary ts n (n.guardedNesting needed n.nesting) := by
  rw [Node.guardedWords, if_pos hlt] at hts
  obtain ⟨opening, us, closing, rfl, hopening, hclosing, hus⟩ := exists_of_parentheses hts
  obtain ⟨d, hv, hn⟩ := (hd us hus).1 (.chain .disjunction) hpos
  refine ⟨.group opening closing hopening hclosing (.expression d), ?_, ?_⟩
  · simp only [Derivation.value, Node.bare_withSpan]
    exact hv
  · simp only [Derivation.nesting, Node.guardedNesting, if_pos hlt, hn]

/-- A part of an expression in its parentheses, if it needs any. -/
theorem derives_guarded (hd : Derivable n) (hpos : 1 ≤ n.strength) (y : Tier)
    (hts : ts.map Token.word = n.guardedWords y.strength n.words) :
    Derives y ts n (n.guardedNesting y.strength n.nesting) := by
  by_cases hlt : n.strength < y.strength
  · refine (derives_primary_of_lt hd hpos hlt hts).of_le ?_
    cases y with
    | chain c => cases c <;> decide
    | _ => decide
  · rw [Node.guardedWords, if_neg hlt] at hts
    rw [Node.guardedNesting, if_neg hlt]
    exact (hd ts hts).1 y (by omega)

theorem folds_guarded (hd : Derivable n) (hpos : 1 ≤ n.strength) (c : Chain)
    (hts : ts.map Token.word = n.guardedWords (Tier.chain c).strength n.words) :
    Folds c (n.chainLength (Tier.chain c).strength) ts n
      (n.guardedNesting (Tier.chain c).strength n.nesting) := by
  by_cases hlt : n.strength < (Tier.chain c).strength
  · rw [Node.chainLength_of_ne (by omega)]
    refine ((derives_primary_of_lt hd hpos hlt hts).of_le ?_).folds
    cases c <;> decide
  · rw [Node.guardedWords, if_neg hlt] at hts
    rw [Node.guardedNesting, if_neg hlt]
    exact (hd ts hts).2 c (by omega)

end Guarded

/-! ## Expressions -/

theorem derivable_literal {value : Scalar} (h : value.IsLiteral) (span : Span) :
    Derivable (.literal value span) := by
  refine derivable_of_derives (y := .primary) rfl nofun fun ts hts => ?_
  obtain ⟨t, rfl, ht⟩ := List.map_eq_singleton_iff.1 hts
  have hkind : t.kind = value.word.kind := congrArg Word.kind ht
  have hvalue : t.value = value.word.value := congrArg Word.value ht
  cases value with
  | null => exact h.elim
  | bool b =>
    cases b with
    | true => exact ⟨.truth t hkind, rfl, rfl⟩
    | false => exact ⟨.falsehood t hkind, rfl, rfl⟩
  | number n =>
    refine ⟨.literal t (.inl hkind), ?_, rfl⟩
    simp only [Derivation.value, Node.bare, hvalue, Scalar.word]
  | text s =>
    refine ⟨.literal t (.inr hkind), ?_, rfl⟩
    simp only [Derivation.value, Node.bare, hvalue, Scalar.word]

theorem derivable_identifier (name : String) (span : Span) :
    Derivable (.identifier name span) := by
  refine derivable_of_derives (y := .primary) rfl nofun fun ts hts => ?_
  obtain ⟨t, rfl, ht⟩ := List.map_eq_singleton_iff.1 hts
  refine ⟨.name t (kind_of_word ht), ?_, rfl⟩
  simp only [Derivation.value, Node.bare, lexeme_of_name ht]

theorem derivable_unary {operator : String} {operand : Node} {span : Span}
    (h : operator = "-" ∨ operator = "!") (ho : Derivable operand) (hpos : 1 ≤ operand.strength) :
    Derivable (.unary operator operand span) := by
  refine derivable_of_derives (y := .unary) rfl nofun fun ts hts => ?_
  obtain ⟨t, us, rfl, ht, hus⟩ := List.map_eq_cons_iff.1 hts
  have hkind : t.kind ∈ [Token.Kind.minus, .bang] := by
    rw [kind_of_word ht]
    rcases h with rfl | rfl <;> decide
  obtain ⟨d, hv, hn⟩ := derives_guarded ho hpos .primary hus
  refine ⟨.prefixed t hkind d, ?_, hn⟩
  simp only [Derivation.value, Node.bare, lexeme_of_fixed ht, hv]

/-- The operators of each strength are those of one tier. -/
theorem operator_cases {operator : String} (h : operator ∈ operatorStrengths.map Prod.fst) :
    operatorStrength? operator = some comparisonStrength ∧
        (Word.fixed operator).kind ∈ Token.Kind.comparisons ∨
      ∃ c : Chain, operatorStrength? operator = some (Tier.chain c).strength ∧
        (Word.fixed operator).kind ∈ c.operators := by
  simp only [operatorStrengths, List.map_cons, List.map_nil, List.mem_cons, List.not_mem_nil,
    or_false] at h
  rcases h with rfl | rfl | rfl | rfl | rfl | rfl | rfl | rfl | rfl | rfl | rfl | rfl
  · exact .inr ⟨.disjunction, by decide⟩
  · exact .inr ⟨.conjunction, by decide⟩
  · exact .inl (by decide)
  · exact .inl (by decide)
  · exact .inl (by decide)
  · exact .inl (by decide)
  · exact .inl (by decide)
  · exact .inl (by decide)
  · exact .inr ⟨.additive, by decide⟩
  · exact .inr ⟨.additive, by decide⟩
  · exact .inr ⟨.multiplicative, by decide⟩
  · exact .inr ⟨.multiplicative, by decide⟩

section Operations

variable {operator : String} {left right : Node} {span : Span}

theorem derivable_comparison (hk : operatorStrength? operator = some comparisonStrength)
    (hkind : (Word.fixed operator).kind ∈ Token.Kind.comparisons) (hl : Derivable left)
    (hr : Derivable right) (hlpos : 1 ≤ left.strength) (hrpos : 1 ≤ right.strength) :
    Derivable (.binary operator left right span) := by
  have hstrength : (Node.binary operator left right span).strength = comparisonStrength := by
    simp only [Node.strength, hk, Option.getD_some]
  refine derivable_of_derives (y := .comparison) hstrength nofun fun ts hts => ?_
  simp only [Node.words, hk, Option.getD_some] at hts
  obtain ⟨us, t, rest, rfl, hus, ht, hrest⟩ := exists_of_operator hts
  obtain ⟨d, hv, hn⟩ := derives_guarded hl hlpos (.chain .additive) hus
  obtain ⟨d', hv', hn'⟩ := derives_guarded hr hrpos (.chain .additive) hrest
  refine ⟨.compared d t (kind_of_word ht ▸ hkind) d', ?_, ?_⟩
  · simp only [Derivation.value, Node.bare, lexeme_of_fixed ht, hv, hv']
  · simp only [Derivation.nesting, Node.nesting, hk, Option.getD_some, if_pos, hn, hn']
    rfl

theorem derivable_chain {c : Chain} (hk : operatorStrength? operator = some (Tier.chain c).strength)
    (hkind : (Word.fixed operator).kind ∈ c.operators) (hl : Derivable left)
    (hr : Derivable right) (hlpos : 1 ≤ left.strength) (hrpos : 1 ≤ right.strength) :
    Derivable (.binary operator left right span) := by
  have hstrength : (Node.binary operator left right span).strength = (Tier.chain c).strength := by
    simp only [Node.strength, hk, Option.getD_some]
  have hne : (Tier.chain c).strength ≠ comparisonStrength := by
    cases c <;> decide
  have hneeds : Node.leftNeeds (Tier.chain c).strength = (Tier.chain c).strength := if_neg hne
  have hlength : (Node.binary operator left right span).chainLength (Tier.chain c).strength =
      left.chainLength (Tier.chain c).strength + 1 := by
    rw [Node.chainLength, if_pos hk]
  apply derivable_of_folds hstrength
  intro ts hts
  simp only [Node.words, hk, Option.getD_some, hneeds] at hts
  obtain ⟨us, t, rest, rfl, hus, ht, hrest⟩ := exists_of_operator hts
  obtain ⟨d, hv, hn⟩ := folds_guarded hl hlpos c hus
  rw [← Tier.strength_operand c] at hrest
  obtain ⟨d', hv', hn'⟩ := derives_guarded hr hrpos c.operand hrest
  rw [hstrength, hlength]
  refine ⟨.fold d t (kind_of_word ht ▸ hkind) d', ?_, ?_⟩
  · simp only [Derivation.value, Node.bare, lexeme_of_fixed ht, hv, hv']
  · simp only [Derivation.nesting, Node.nesting, hk, Option.getD_some, if_neg hne, hneeds, hn, hn',
      Tier.strength_operand]

end Operations

/-! ## Arguments -/

theorem Derivable.expression {n : Node} (h : Derivable n) (hpos : 1 ≤ n.strength) {ts : List Token}
    (hts : ts.map Token.word = n.words) :
    ∃ d : Derivation .expression ts, d.value.bare = n.bare ∧ d.nesting = 1 + n.nesting := by
  obtain ⟨d, hv, hn⟩ := (h ts hts).1 (.chain .disjunction) hpos
  refine ⟨.expression d, hv, ?_⟩
  rw [Derivation.nesting, hn]

section Arguments

variable {ns : List Node} (hns : ∀ n ∈ ns, Derivable n ∧ 1 ≤ n.strength)
include hns

theorem exists_furtherArguments {ts : List Token}
    (hts : ts.map Token.word = Node.words.furtherWords ns) :
    ∃ d : Derivation .furtherArguments ts, List.map Node.bare d.value = ns.map Node.bare ∧
      d.nesting = Node.nesting.argumentNesting ns := by
  induction ns generalizing ts with
  | nil =>
    obtain rfl := List.map_eq_nil_iff.1 hts
    exact ⟨.lastArgument, rfl, rfl⟩
  | cons n ns ih =>
    obtain ⟨⟨hn, hpos⟩, hns⟩ := List.forall_mem_cons.1 hns
    obtain ⟨comma, tail, rfl, hcomma, htail⟩ := List.map_eq_cons_iff.1 hts
    obtain ⟨us, vs, rfl, hus, hvs⟩ := List.map_eq_append_iff.1 htail
    obtain ⟨head, hv, hlevels⟩ := hn.expression hpos hus
    obtain ⟨further, hv', hlevels'⟩ := ih hns hvs
    refine ⟨.nextArgument comma (kind_of_word hcomma) head further, ?_, ?_⟩
    · simp only [Derivation.value, List.map_cons, hv, hv']
    · simp only [Derivation.nesting, hlevels, hlevels', Node.nesting.argumentNesting]

theorem exists_arguments {ts : List Token}
    (hts : ts.map Token.word = Node.words.argumentWords ns) :
    ∃ d : Derivation .arguments ts, List.map Node.bare d.value = ns.map Node.bare ∧
      d.nesting = Node.nesting.argumentNesting ns := by
  cases ns with
  | nil =>
    obtain rfl := List.map_eq_nil_iff.1 hts
    exact ⟨.noArguments, rfl, rfl⟩
  | cons n ns =>
    obtain ⟨⟨hn, hpos⟩, hns⟩ := List.forall_mem_cons.1 hns
    obtain ⟨us, vs, rfl, hus, hvs⟩ := List.map_eq_append_iff.1 hts
    obtain ⟨head, hv, hlevels⟩ := hn.expression hpos hus
    obtain ⟨further, hv', hlevels'⟩ := exists_furtherArguments hns hvs
    refine ⟨.someArguments head further, ?_, ?_⟩
    · simp only [Derivation.value, List.map_cons, hv, hv']
    · simp only [Derivation.nesting, hlevels, hlevels', Node.nesting.argumentNesting]

theorem derivable_call (name : String) (inner span : Span) :
    Derivable (.call (.identifier name inner) ns span) := by
  refine derivable_of_derives (y := .primary) rfl nofun fun ts hts => ?_
  obtain ⟨callee, rest, rfl, hcallee, hrest⟩ := List.map_eq_cons_iff.1 hts
  obtain ⟨opening, us, closing, rfl, hopening, hclosing, hus⟩ := exists_of_parentheses hrest
  obtain ⟨d, hv, hlevels⟩ := exists_arguments hns hus
  refine ⟨.call callee opening closing (kind_of_word hcallee) hopening hclosing d, ?_, hlevels⟩
  simp only [Derivation.value, Node.bare, Node.bares_eq_map, hv, lexeme_of_name hcallee]

end Arguments

/-- Tokens with the words of an expression are a phrase of the grammar, with the same tree. -/
theorem derivable_expression {n : Node} (h : n.IsExpression) : Derivable n := by
  induction h with
  | literal h => exact derivable_literal h _
  | identifier => exact derivable_identifier _ _
  | call _ ha ih => exact derivable_call (fun n hn => ⟨ih n hn, (ha n hn).strength_pos⟩) _ _ _
  | unary h ho ih => exact derivable_unary h ih ho.strength_pos
  | binary h hl hr ihl ihr =>
    rcases operator_cases h with ⟨hk, hkind⟩ | ⟨c, hk, hkind⟩
    · exact derivable_comparison hk hkind ihl ihr hl.strength_pos hr.strength_pos
    · exact derivable_chain hk hkind ihl ihr hl.strength_pos hr.strength_pos

/-- The derivation of a written expression gives the expression back, and is nested as deep as
counted on the tree. -/
theorem expression_derives {n : Node} (h : n.IsExpression) {ts : List Token}
    (hts : ts.map Token.word = n.words) :
    ∃ d : Derivation .expression ts, d.value.bare = n.bare ∧ d.nesting = 1 + n.nesting :=
  (derivable_expression h).expression h.strength_pos hts

/-! ## Nesting and length -/

/-- What the nesting of a phrase leaves of its length. -/
def NestsWithin : Nonterminal → Nat → Nat → Prop
  | .expression, nesting, length => nesting ≤ length
  | .tier _, nesting, length => nesting < length
  | .folded _ n, nesting, length => nesting < length ∧ 2 * n < length
  | .arguments, nesting, length => nesting ≤ length
  | .furtherArguments, nesting, length => nesting ≤ length

theorem nestsWithin {y : Nonterminal} {ts : List Token} (d : Derivation y ts) :
    NestsWithin y d.nesting ts.length := by
  induction d with
  | expression body ih =>
    simp only [NestsWithin, Derivation.nesting] at ih ⊢
    omega
  | chain operands ih => exact ih.1
  | first operand ih =>
    simp only [NestsWithin, Derivation.nesting] at ih ⊢
    omega
  | fold left operator h right ihl ihr =>
    simp only [NestsWithin, Derivation.nesting, List.length_append, List.length_cons] at ihl ihr ⊢
    omega
  | compared left operator h right ihl ihr =>
    simp only [NestsWithin, Derivation.nesting, List.length_append, List.length_cons] at ihl ihr ⊢
    omega
  | uncompared side ih => exact ih
  | plain operand ih => exact ih
  | prefixed operator h operand ih =>
    simp only [NestsWithin, Derivation.nesting, List.length_cons] at ih ⊢
    omega
  | literal | truth | falsehood | name => exact Nat.one_pos
  | call callee opening closing hn ho hc inner ih =>
    simp only [NestsWithin, Derivation.nesting, List.length_cons, List.length_append] at ih ⊢
    omega
  | group opening closing ho hc inner ih =>
    simp only [NestsWithin, Derivation.nesting, List.length_cons, List.length_append] at ih ⊢
    omega
  | noArguments | lastArgument => exact Nat.zero_le _
  | someArguments head further ihh ihf =>
    simp only [NestsWithin, Derivation.nesting, List.length_append] at ihh ihf ⊢
    omega
  | nextArgument comma h head further ihh ihf =>
    simp only [NestsWithin, Derivation.nesting, List.length_append, List.length_cons] at ihh ihf ⊢
    omega

/-- An expression is nested no deeper than it has tokens. -/
theorem nesting_le_length {ts : List Token} (d : Derivation .expression ts) :
    d.nesting ≤ ts.length :=
  nestsWithin d

end Grammar

end RuleLang
