import RuleLang.Proofs.Agreement
import RuleLang.Proofs.Grammar.Trees
import RuleLang.Proofs.Grammar.Written

/-!
How few parentheses the text of an expression has. Every derivation of a tree opens a parenthesis
wherever its text has one, whatever stands around it (`leastOpenings_le`): no source text that is
read as the tree opens fewer than the text that is written for it (`openings_expressionText`).
-/
namespace RuleLang

/-- How many parentheses are opened by tokens of the given kinds. -/
def Token.Kind.openings (kinds : List Kind) : Nat := kinds.count .lparen

/-- How many parentheses are opened among the given tokens. -/
def Token.openings (ts : List Token) : Nat := Kind.openings (ts.map Token.kind)

namespace Token.Kind

@[simp] theorem openings_nil : openings [] = 0 := rfl

@[simp] theorem openings_append (ks ls : List Kind) :
    openings (ks ++ ls) = openings ks + openings ls := List.count_append

@[simp] theorem openings_cons (k : Kind) (ks : List Kind) :
    openings (k :: ks) = (if k = .lparen then 1 else 0) + openings ks := by
  simp [openings, List.count_cons, Nat.add_comm]

end Token.Kind

namespace Token

@[simp] theorem openings_nil : openings [] = 0 := rfl

@[simp] theorem openings_append (ts us : List Token) :
    openings (ts ++ us) = openings ts + openings us := by
  rw [openings, List.map_append, Kind.openings_append, openings, openings]

@[simp] theorem openings_cons (t : Token) (ts : List Token) :
    openings (t :: ts) = (if t.kind = .lparen then 1 else 0) + openings ts := by
  rw [openings, List.map_cons, Kind.openings_cons, openings]

end Token

namespace Node

/-- How many parentheses the words of an expression open. -/
def openings (n : Node) : Nat := Token.Kind.openings (n.words.map Word.kind)

/-- The same for a node that stands where at least the given strength is needed. -/
def guardedOpenings (needed : Nat) (n : Node) : Nat :=
  (if n.strength < needed then 1 else 0) + n.openings

theorem guardedOpenings_mono {needed needed' : Nat} (h : needed ≤ needed') (n : Node) :
    n.guardedOpenings needed ≤ n.guardedOpenings needed' := by
  unfold guardedOpenings
  split <;> split <;> omega

theorem openings_le_guardedOpenings (needed : Nat) (n : Node) :
    n.openings ≤ n.guardedOpenings needed := Nat.le_add_left _ _

theorem guardedOpenings_of_le {needed : Nat} {n : Node} (h : needed ≤ n.strength) :
    n.guardedOpenings needed = n.openings := by
  rw [guardedOpenings, if_neg (by omega), Nat.zero_add]

theorem openings_guardedWords (needed : Nat) (n : Node) :
    Token.Kind.openings ((n.guardedWords needed n.words).map Word.kind) =
      n.guardedOpenings needed := by
  have hopen : (Word.fixed "(").kind = .lparen := rfl
  have hclose : (Word.fixed ")").kind = .rparen := rfl
  unfold guardedWords guardedOpenings
  split <;> simp [openings, hopen, hclose]

theorem openings_literal (value : Scalar) (span : Span) : (literal value span).openings = 0 := by
  cases value with
  | bool b => cases b <;> rfl
  | _ => rfl

theorem openings_binary {operator : String} {k : Nat} (hk : operatorStrength? operator = some k)
    (left right : Node) (span : Span) :
    (binary operator left right span).openings =
      left.guardedOpenings (leftNeeds k) + right.guardedOpenings (k + 1) := by
  have hall : ∀ operator ∈ operatorStrengths.map Prod.fst,
      (Word.fixed operator).kind ≠ .lparen := by decide
  have hwords : (binary operator left right span).words =
      guardedWords (leftNeeds k) left left.words ++
        .fixed operator :: guardedWords (k + 1) right right.words := by
    simp only [words, hk, Option.getD_some]
  rw [openings, hwords, List.map_append, List.map_cons, Token.Kind.openings_append,
    Token.Kind.openings_cons, if_neg (hall operator (List.mem_map_of_mem (mem_of_lookup hk))),
    openings_guardedWords, openings_guardedWords, Nat.zero_add]

theorem openings_unary {operator : String} (h : operator = "-" ∨ operator = "!") (operand : Node)
    (span : Span) :
    (unary operator operand span).openings = operand.guardedOpenings atomStrength := by
  have hkind : (Word.fixed operator).kind ≠ .lparen := by
    obtain rfl | rfl := h <;> decide
  rw [openings, words, List.map_cons, Token.Kind.openings_cons, if_neg hkind,
    openings_guardedWords, Nat.zero_add]

/-- How many parentheses the texts of some expressions open. -/
def openingsOf : List Node → Nat
  | [] => 0
  | n :: ns => n.openings + openingsOf ns

theorem openings_furtherWords (ns : List Node) :
    Token.Kind.openings ((words.furtherWords ns).map Word.kind) = openingsOf ns := by
  have hcomma : (Word.fixed ",").kind = .comma := rfl
  induction ns with
  | nil => rfl
  | cons n ns ih => simp [words.furtherWords, hcomma, ih, openings, openingsOf]

theorem openings_call (name : String) (ns : List Node) (inner span : Span) :
    (call (.identifier name inner) ns span).openings = 1 + openingsOf ns := by
  have hopen : (Word.fixed "(").kind = .lparen := rfl
  have hclose : (Word.fixed ")").kind = .rparen := rfl
  have harguments : Token.Kind.openings ((words.argumentWords ns).map Word.kind) =
      openingsOf ns := by
    cases ns with
    | nil => rfl
    | cons n ns => simp [words.argumentWords, openings_furtherWords, openings, openingsOf]
  simp [openings, words, Word.name, hopen, hclose, harguments]

end Node

namespace Grammar

open Node

/-- How many parentheses the words of a phrase open that stand for the given value. -/
def leastOpenings : (y : Nonterminal) → y.Value → Nat
  | .expression, n => n.openings
  | .tier y, n => n.guardedOpenings y.strength
  | .folded c _, n => n.guardedOpenings (Tier.chain c).strength
  | .arguments, ns => openingsOf ns
  | .furtherArguments, ns => openingsOf ns

/-- An operator of a chain binds as strongly as the chain. -/
theorem strength_of_operator {t : Token} {c : Chain} (h : t.word.WellMade)
    (hk : t.kind ∈ c.operators) :
    operatorStrength? t.lexeme = some (Tier.chain c).strength := by
  have hspelled : ∀ c, ∀ p ∈ Token.Kind.spellings, p.2 ∈ Chain.operators c →
      operatorStrength? p.1 = some (Tier.chain c).strength := by
    intro c
    cases c <;> decide
  have hall : ∀ c, ∀ k ∈ Chain.operators c, k ∈ Token.Kind.spellings.map Prod.snd := by
    intro c
    cases c <;> decide
  exact hspelled c _ (mem_spellings h (hall c _ hk)) hk

theorem strength_of_comparison {t : Token} (h : t.word.WellMade)
    (hk : t.kind ∈ Token.Kind.comparisons) :
    operatorStrength? t.lexeme = some comparisonStrength := by
  have hspelled : ∀ p ∈ Token.Kind.spellings, p.2 ∈ Token.Kind.comparisons →
      operatorStrength? p.1 = some comparisonStrength := by decide
  have hall : ∀ k ∈ Token.Kind.comparisons, k ∈ Token.Kind.spellings.map Prod.snd := by decide
  exact hspelled _ (mem_spellings h (hall _ hk)) hk

theorem openings_withSpan (n : Node) (s : Span) : (n.withSpan s).openings = n.openings := by
  cases n <;> rfl

/-- Operands on both sides of an operator open what the words of the operation do. -/
theorem openings_operation {ts us : List Token} {operator : Token} {left right : Node} {k : Nat}
    (hk : operatorStrength? operator.lexeme = some k)
    (hl : left.guardedOpenings (leftNeeds k) ≤ Token.openings ts)
    (hr : right.guardedOpenings (k + 1) ≤ Token.openings us) :
    (binary operator left right).guardedOpenings k ≤ Token.openings (ts ++ operator :: us) := by
  have hstrength : (binary operator left right).strength = k := by
    simp only [binary, strength, hk, Option.getD_some]
  rw [guardedOpenings_of_le (Nat.le_of_eq hstrength.symm), binary, openings_binary hk,
    Token.openings_append, Token.openings_cons]
  omega

/-- No phrase opens fewer parentheses than the words of what it stands for. -/
theorem leastOpenings_le {y : Nonterminal} {ts : List Token} (d : Derivation y ts)
    (h : ∀ t ∈ ts, t.word.WellMade) : leastOpenings y d.value ≤ Token.openings ts := by
  induction d with
  | expression body ih => exact Nat.le_trans (openings_le_guardedOpenings 1 _) (ih h)
  | chain operands ih => exact ih h
  | @first c ts operand ih =>
    refine Nat.le_trans (guardedOpenings_mono ?_ _) (ih h)
    rw [Tier.strength_operand]
    exact Nat.le_succ _
  | @fold c n ts us left operator hop right ihl ihr =>
    obtain ⟨hleft, htail⟩ := List.forall_mem_append.1 h
    obtain ⟨hoperator, hright⟩ := List.forall_mem_cons.1 htail
    have hneeds : leftNeeds (Tier.chain c).strength = (Tier.chain c).strength := by
      cases c <;> rfl
    refine openings_operation (strength_of_operator hoperator hop) ?_ ?_
    · rw [hneeds]
      exact ihl hleft
    · rw [← Tier.strength_operand]
      exact ihr hright
  | uncompared side ih => exact Nat.le_trans (guardedOpenings_mono (by decide) _) (ih h)
  | compared left operator hop right ihl ihr =>
    obtain ⟨hleft, htail⟩ := List.forall_mem_append.1 h
    obtain ⟨hoperator, hright⟩ := List.forall_mem_cons.1 htail
    exact openings_operation (strength_of_comparison hoperator hop) (ihl hleft) (ihr hright)
  | plain operand ih => exact Nat.le_trans (guardedOpenings_mono (by decide) _) (ih h)
  | prefixed operator hop operand ih =>
    obtain ⟨hoperator, hoperand⟩ := List.forall_mem_cons.1 h
    have hinner : operand.value.guardedOpenings atomStrength ≤ _ := ih hoperand
    refine Nat.le_trans (Nat.le_of_eq (guardedOpenings_of_le (Nat.le_refl _))) ?_
    rw [Derivation.value, openings_unary (lexeme_of_sign hoperator hop), Token.openings_cons]
    omega
  | literal t ht =>
    refine Nat.le_trans (Nat.le_of_eq (guardedOpenings_of_le (Nat.le_refl _))) ?_
    rw [Derivation.value, openings_literal]
    exact Nat.zero_le _
  | truth t ht => exact Nat.zero_le _
  | falsehood t ht => exact Nat.zero_le _
  | name t ht => exact Nat.zero_le _
  | call callee opening closing hn ho hc inner ih =>
    obtain ⟨-, htail⟩ := List.forall_mem_cons.1 h
    obtain ⟨-, htail⟩ := List.forall_mem_cons.1 htail
    have hinner : openingsOf inner.value ≤ _ := ih (List.forall_mem_append.1 htail).1
    refine Nat.le_trans (Nat.le_of_eq (guardedOpenings_of_le (Nat.le_refl _))) ?_
    rw [Derivation.value, openings_call, Token.openings_cons, Token.openings_cons,
      Token.openings_append, if_pos ho]
    omega
  | group opening closing ho hc inner ih =>
    obtain ⟨-, htail⟩ := List.forall_mem_cons.1 h
    have hinner : inner.value.openings ≤ _ := ih (List.forall_mem_append.1 htail).1
    rw [Derivation.value, leastOpenings, guardedOpenings, openings_withSpan, Token.openings_cons,
      Token.openings_append, if_pos ho]
    split <;> omega
  | noArguments | lastArgument => exact Nat.zero_le _
  | someArguments head further ihh ihf =>
    obtain ⟨hhead, hfurther⟩ := List.forall_mem_append.1 h
    have hfirst : head.value.openings ≤ _ := ihh hhead
    have hothers : openingsOf further.value ≤ _ := ihf hfurther
    rw [Derivation.value, leastOpenings, openingsOf, Token.openings_append]
    omega
  | nextArgument comma hcomma head further ihh ihf =>
    obtain ⟨-, htail⟩ := List.forall_mem_cons.1 h
    obtain ⟨hhead, hfurther⟩ := List.forall_mem_append.1 htail
    have hfirst : head.value.openings ≤ _ := ihh hhead
    have hothers : openingsOf further.value ≤ _ := ihf hfurther
    rw [Derivation.value, leastOpenings, openingsOf, Token.openings_cons,
      Token.openings_append]
    omega

/-- Nor does a rule that is read from a source text. -/
theorem openings_le_of_rule {levels : Nat} {source file : String} {e : Node} {s' : TokenStream}
    (h : rule levels (lex source file).stream = .ok e s') :
    e.openings ≤ Token.openings (lex source file).stream.ahead ∧ e.IsExpression := by
  obtain ⟨d, rfl, -⟩ := rule_sound endsOnce_lex h
  have hmade : ∀ t ∈ (lex source file).stream.ahead, t.word.WellMade :=
    fun _ ht => wellMade_of_mem_lex ht
  generalize (lex source file).stream.ahead = ts at d hmade
  cases d with
  | bare expression =>
    exact ⟨leastOpenings_le expression hmade, isPhrase_value expression hmade⟩
  | terminated expression semicolon hs =>
    have hmade := (List.forall_mem_append.1 hmade).1
    have hleast : expression.value.openings ≤ _ := leastOpenings_le expression hmade
    refine ⟨?_, isPhrase_value expression hmade⟩
    rw [Token.openings_append]
    exact Nat.le_trans hleast (Nat.le_add_right _ _)

end Grammar

open Grammar

/-- The parentheses of a text are among its words, whatever the name of its file. -/
theorem openings_tokens (source file : String) :
    Token.openings (lex source file).tokens =
      Token.Kind.openings ((wordsOf source.toList).map Word.kind) := by
  have hkinds := congrArg (List.map Word.kind) (word_lex source file)
  rw [List.map_map, List.map_map] at hkinds
  have hlast : Token.openings [(lex source file).stream.last] = 0 := rfl
  rw [Lexed.tokens, TokenStream.toList, Token.openings_append, hlast, Nat.add_zero]
  exact congrArg _ hkinds

/-- Trees of the same shape have the same words. -/
theorem words_of_sameShape {n m : Node} (hn : n.IsExpression) (hm : m.IsExpression)
    (h : n.sameShape m = true) : n.words = m.words := by
  obtain ⟨text, hwrites⟩ := Node.exists_writes hn
  obtain ⟨text', hwrites'⟩ := Node.exists_writes hm
  have htexts : n.expressionText = m.expressionText := by
    rw [← Node.expressionText_bare, (Node.sameShape_iff n m).1 h, Node.expressionText_bare]
  obtain rfl : text = text' := Except.ok.inj <| calc
    .ok text = n.expressionText := hwrites.printed.symm
    _ = m.expressionText := htexts
    _ = .ok text' := hwrites'.printed
  exact hwrites.wordsOf_eq.symm.trans hwrites'.wordsOf_eq

section Written

variable {e : Node} {text : String} (hwords : wordsOf text.toList = e.words)
include hwords

theorem openings_of_written (name : String) :
    Token.openings (lex text name).tokens = e.openings := by
  rw [openings_tokens, hwords, Node.openings]

/-- An expression that was written is read again where its nesting fits the limit. -/
theorem parseExpression_written (h : e.IsExpression) (file : Option String) {o : Options}
    (hlevels : 1 + e.nesting ≤ o.levels) :
    ∃ tree, (parseExpression text file o).1 = some tree ∧ tree.sameShape e = true := by
  have hflaws : ∀ w ∈ wordsOf text.toList, w.flaws = [] := hwords ▸ e.flaws_words
  have htokens : (lex text (o.fileFor file)).stream.ahead.map Token.word = e.words :=
    hwords ▸ word_lex_of_flawless text _ hflaws
  obtain ⟨d, hvalue, hnesting⟩ := expression_derives h htokens
  refine ⟨d.value, ?_, (Node.sameShape_iff _ _).2 hvalue⟩
  refine (parseExpression_eq_some_iff _ _ _ _).2 ⟨diagnostics_lex text _ hflaws, ?_⟩
  exact (rule_iff endsOnce_lex _).2 ⟨.bare d, rfl, Nat.le_trans (Nat.le_of_eq hnesting) hlevels⟩

end Written

/-- The text of a well-formed expression has the least number of parentheses. No source text that is
read as the expression under any options opens fewer of them, and the text is such a source itself
under every limit that allows its nesting. -/
theorem openings_expressionText {e : Node} (h : e.IsExpression) :
    ∃ text, e.expressionText = .ok text ∧
      (∀ source file o tree, (parseExpression source file o).1 = some tree →
        tree.sameShape e = true → ∀ name name',
          Token.openings (lex text name).tokens ≤ Token.openings (lex source name').tokens) ∧
      ∀ file o, 1 + e.nesting ≤ o.levels →
        ∃ tree, (parseExpression text file o).1 = some tree ∧ tree.sameShape e = true := by
  obtain ⟨text, hwrites⟩ := Node.exists_writes h
  have hwords := hwrites.wordsOf_eq
  refine ⟨text, hwrites.printed, ?_, fun file _ => parseExpression_written hwords h file⟩
  intro source file o tree hread hshape name name'
  obtain ⟨-, s', hrule⟩ := (parseExpression_eq_some_iff source file o tree).1 hread
  obtain ⟨hopenings, htree⟩ := openings_le_of_rule hrule
  calc Token.openings (lex text name).tokens
      = e.openings := openings_of_written hwords name
    _ = tree.openings := by rw [Node.openings, Node.openings, words_of_sameShape htree h hshape]
    _ ≤ Token.openings (lex source (o.fileFor file)).stream.ahead := hopenings
    _ ≤ Token.openings (lex source (o.fileFor file)).tokens := by
      rw [Lexed.tokens, TokenStream.toList, Token.openings_append]
      exact Nat.le_add_right _ _
    _ = Token.openings (lex source name').tokens := by rw [openings_tokens, openings_tokens]

/-- The tree of `(a or b) and c`. -/
def groupedChoice : Node :=
  .binary "and"
    (.binary "or" (.identifier "a" Node.noSpan) (.identifier "b" Node.noSpan) Node.noSpan)
    (.identifier "c" Node.noSpan) Node.noSpan

theorem isExpression_groupedChoice : groupedChoice.IsExpression := by
  have hname : ∀ name ∈ ["a", "b", "c"], IsName name := by
    simp only [isName_iff]
    decide +kernel
  have ha := hname "a" (by simp)
  have hb := hname "b" (by simp)
  have hc := hname "c" (by simp)
  exact .binary (by decide) (.binary (by decide) (.identifier ha) (.identifier hb)) (.identifier hc)

/-- It is written with one pair of parentheses, and read from a source with three. -/
theorem openings_expressionText_grouped :
    groupedChoice.expressionText = .ok "(a or b) and c" ∧
      ∃ tree, (parseExpression "((a or b) and (c))" none {}).1 = some tree ∧
        tree.sameShape groupedChoice = true ∧
        Token.openings (lex "(a or b) and c" "").tokens = 1 ∧
        Token.openings (lex "(a or b) and c" "").tokens ≤
          Token.openings (lex "((a or b) and (c))" "").tokens := by
  obtain ⟨text, hprinted, hleast, -⟩ := openings_expressionText isExpression_groupedChoice
  have htext : groupedChoice.expressionText = .ok "(a or b) and c" := by decide +kernel
  obtain rfl : text = "(a or b) and c" := Except.ok.inj (hprinted.symm.trans htext)
  have hread : ∃ tree, (parseExpression "((a or b) and (c))" none {}).1 = some tree ∧
      tree.sameShape groupedChoice = true :=
    (Option.any_eq_true _ _).1 (by decide +kernel)
  obtain ⟨tree, htree, hshape⟩ := hread
  exact ⟨htext, tree, htree, hshape, by decide +kernel, hleast _ _ _ tree htree hshape _ _⟩

end RuleLang
