import RuleLang.Proofs.Node.WellFormed

/-!
The words that a tree is written as. Words are put together as texts are, parentheses included, and
the text of a well-formed tree is put together of them (`exists_writes`, `exists_printed`).
-/
namespace RuleLang.Node

/-- The strength that the left side of an operator needs. -/
def leftNeeds (strength : Nat) : Nat :=
  if strength = comparisonStrength then strength + 1 else strength

/-- The words of a node that stands where at least the given strength is needed. -/
def guardedWords (needed : Nat) (n : Node) (ws : List Word) : List Word :=
  if n.strength < needed then .fixed "(" :: (ws ++ [.fixed ")"]) else ws

/-- The words of an expression. -/
def words : Node → List Word
  | .literal value _ => [value.word]
  | .identifier name _ => [.name name]
  | .call callee arguments _ =>
    callee.words ++ .fixed "(" :: (argumentWords arguments ++ [.fixed ")"])
  | .unary operator operand _ =>
    .fixed operator :: guardedWords atomStrength operand operand.words
  | .binary operator left right _ =>
    let k := (operatorStrength? operator).getD 0
    guardedWords (leftNeeds k) left left.words ++
      .fixed operator :: guardedWords (k + 1) right right.words
  | _ => []
where
  /-- The words of the arguments of a call. -/
  argumentWords : List Node → List Word
    | [] => []
    | n :: ns => n.words ++ furtherWords ns
  /-- The words of arguments that stand behind another one. -/
  furtherWords : List Node → List Word
    | [] => []
    | n :: ns => .fixed "," :: (n.words ++ furtherWords ns)

/-- The words of a statement. -/
def statementWords : Node → List Word
  | .variableDeclaration name initializer _ =>
    .fixed "var" :: (name.words ++ .fixed "=" :: (initializer.words ++ [.fixed ";"]))
  | .expressionStatement expression _ => expression.words ++ [.fixed ";"]
  | _ => []

/-- The words of a program. -/
def programWords : Node → List Word
  | .program statements _ => statements.flatMap statementWords
  | _ => []

/-- The text of an expression: it is put together of the words of its tree, and may stand behind
`!`. -/
structure Writes (n : Node) (text : String) : Prop where
  printed : n.expressionText = .ok text
  words : Printed text.toList n.words
  opens : Opens text.toList

theorem Writes.wordsOf_eq {n : Node} {text : String} (h : n.Writes text) :
    wordsOf text.toList = n.words := by
  simpa using h.words.spells [] ends_nil

theorem printed_guarded {n : Node} {text : String} (h : n.Writes text) (needed : Nat) :
    Printed (guarded needed n text).toList (guardedWords needed n n.words) ∧
      Opens (guarded needed n text).toList := by
  unfold guarded guardedWords
  split
  · have hclose : Printed [')'] [.fixed ")"] := Printed.nil.mark (by decide)
    have htext : ("(" ++ text ++ ")").toList = '(' :: (text.toList ++ [')']) := by
      simp
    rw [htext]
    refine ⟨?_, '(', _, rfl, by decide⟩
    exact (h.words.append hclose fun _ _ => ends_cons (by decide) _).mark (by decide)
  · exact ⟨h.words, h.opens⟩

theorem writes_unary {operator : String} {operand : Node} {span : Span} {text : String}
    (h : operator = "-" ∨ operator = "!") (ho : operand.Writes text) :
    (unary operator operand span).Writes (operator ++ guarded atomStrength operand text) := by
  obtain ⟨hwords, hopens⟩ := printed_guarded ho atomStrength
  have hprinted : (unary operator operand span).expressionText =
      .ok (operator ++ guarded atomStrength operand text) := by
    simp only [expressionText, ho.printed]
    rfl
  rcases h with rfl | rfl
  · refine ⟨hprinted, ?_, '-', _, by rw [String.toList_append]; rfl, by decide⟩
    rw [String.toList_append]
    exact hwords.mark (by decide)
  · refine ⟨hprinted, ?_, '!', _, by rw [String.toList_append]; rfl, by decide⟩
    rw [String.toList_append]
    exact hwords.bang hopens

theorem exists_operatorStrength {operator : String}
    (h : operator ∈ operatorStrengths.map Prod.fst) : ∃ k, operatorStrength? operator = some k := by
  have hall : ∀ operator ∈ operatorStrengths.map Prod.fst,
      (operatorStrength? operator).isSome = true := by decide
  exact Option.isSome_iff_exists.1 (hall operator h)

theorem writes_binary {operator : String} {left right : Node} {span : Span} {a b : String}
    (h : operator ∈ operatorStrengths.map Prod.fst) (hl : left.Writes a) (hr : right.Writes b) :
    ∃ text, (binary operator left right span).Writes text := by
  obtain ⟨k, hk⟩ := exists_operatorStrength h
  obtain ⟨hleft, c, cs, hcs, hc⟩ := printed_guarded hl (leftNeeds k)
  obtain ⟨hright, -⟩ := printed_guarded hr (k + 1)
  refine ⟨guarded (leftNeeds k) left a ++ " " ++ operator ++ " " ++ guarded (k + 1) right b,
    ?_, ?_, c, ?_⟩
  · simp only [expressionText, hk, hl.printed, hr.printed]
    rfl
  · have hwords : (binary operator left right span).words =
        guardedWords (leftNeeds k) left left.words ++
          .fixed operator :: guardedWords (k + 1) right right.words := by
      simp only [words, hk, Option.getD_some]
    have htail : Printed (operator.toList ++ ' ' :: (guarded (k + 1) right b).toList)
        (.fixed operator :: guardedWords (k + 1) right right.words) :=
      (Printed.operator h).append (hright.blank (.inl rfl)) fun _ _ => ends_cons (by decide) _
    have hall := hleft.append (htail.blank (.inl rfl)) fun _ _ => ends_cons (by decide) _
    rw [hwords]
    simpa [String.toList_append] using hall
  · simp [String.toList_append, hcs, hc]

/-- Arguments that stand behind another one, each behind a comma and a space. -/
theorem printed_further {ns : List Node} (h : ∀ n ∈ ns, ∃ text, n.Writes text) :
    ∃ texts, expressionText.expressionTexts ns = .ok texts ∧
      Printed (texts.flatMap fun text => ',' :: ' ' :: text.toList) (words.furtherWords ns) := by
  induction ns with
  | nil => exact ⟨[], rfl, .nil⟩
  | cons n ns ih =>
    obtain ⟨⟨text, hn⟩, hns⟩ := List.forall_mem_cons.1 h
    obtain ⟨texts, htexts, hwords⟩ := ih hns
    refine ⟨text :: texts, ?_, ?_⟩
    · simp only [expressionText.expressionTexts, hn.printed, htexts]
      rfl
    · have hends : ∀ rest, Ends rest →
          Ends (texts.flatMap (fun text => ',' :: ' ' :: text.toList) ++ rest) := by
        intro rest hrest
        cases texts with
        | nil => exact hrest
        | cons _ _ => exact ends_cons (by decide) _
      exact ((hn.words.append hwords hends).blank (.inl rfl)).mark (by decide)

theorem toList_intercalate_cons (text : String) (texts : List String) :
    (", ".intercalate (text :: texts)).toList =
      text.toList ++ texts.flatMap fun text => ',' :: ' ' :: text.toList := by
  induction texts generalizing text with
  | nil => simp
  | cons next texts ih =>
    rw [String.intercalate_cons_cons, String.toList_append, String.toList_append, ih]
    simp

theorem printed_arguments {ns : List Node} (h : ∀ n ∈ ns, ∃ text, n.Writes text) :
    ∃ texts, expressionText.expressionTexts ns = .ok texts ∧
      Printed (", ".intercalate texts).toList (words.argumentWords ns) := by
  cases ns with
  | nil => exact ⟨[], rfl, .nil⟩
  | cons n ns =>
    obtain ⟨⟨text, hn⟩, hns⟩ := List.forall_mem_cons.1 h
    obtain ⟨texts, htexts, hwords⟩ := printed_further hns
    refine ⟨text :: texts, ?_, ?_⟩
    · simp only [expressionText.expressionTexts, hn.printed, htexts]
      rfl
    · rw [toList_intercalate_cons]
      apply hn.words.append hwords
      intro rest hrest
      cases texts with
      | nil => exact hrest
      | cons _ _ => exact ends_cons (by decide) _

theorem writes_name {name : String} (h : IsName name) (span : Span) :
    (identifier name span).Writes name := by
  refine ⟨rfl, .name h, ?_⟩
  obtain ⟨⟨c, cs, hcs, hstart, -⟩, -⟩ := h
  refine ⟨c, cs, hcs, ?_⟩
  rintro rfl
  revert hstart
  decide

theorem writes_call {name : String} (h : IsName name) {inner span : Span} {ns : List Node}
    (hns : ∀ n ∈ ns, ∃ text, n.Writes text) :
    ∃ text, (call (identifier name inner) ns span).Writes text := by
  obtain ⟨texts, htexts, hargumentWords⟩ := printed_arguments hns
  obtain ⟨-, hname, c, cs, hcs, hc⟩ := writes_name h inner
  refine ⟨name ++ "(" ++ ", ".intercalate texts ++ ")", ?_, ?_, c, ?_⟩
  · simp only [expressionText, htexts, nameText]
    rfl
  · have hclose : Printed [')'] [.fixed ")"] := Printed.nil.mark (by decide)
    have harguments := (hargumentWords.append hclose fun _ _ => ends_cons (by decide) _).mark
      (c := '(') (by decide)
    have hall := hname.append harguments fun _ _ => ends_cons (by decide) _
    have hwords : (call (identifier name inner) ns span).words = (identifier name inner).words ++
        .fixed "(" :: (words.argumentWords ns ++ [.fixed ")"]) := rfl
    rw [hwords]
    simpa [String.toList_append] using hall
  · simp [String.toList_append, hcs, hc]

theorem writes_literal {value : Scalar} (h : value.IsLiteral) (span : Span) :
    ∃ text, (literal value span).Writes text := by
  obtain ⟨text, htext, -, hopens⟩ := spells_literal h
  exact ⟨text, htext, .literal h htext, hopens⟩

/-- Every expression has a text, which is put together of its words. -/
theorem exists_writes {n : Node} (h : n.IsExpression) : ∃ text, n.Writes text := by
  induction h with
  | literal h => exact writes_literal h _
  | identifier h => exact ⟨_, writes_name h _⟩
  | call h _ ih => exact writes_call h ih
  | unary h _ ih =>
    obtain ⟨text, ho⟩ := ih
    exact ⟨_, writes_unary h ho⟩
  | binary h _ _ ihl ihr =>
    obtain ⟨a, hl⟩ := ihl
    obtain ⟨b, hr⟩ := ihr
    exact writes_binary h hl hr

/-- The text of a statement is put together of its words. -/
theorem exists_statementText {n : Node} (h : n.IsStatement) :
    ∃ text, n.statementText = .ok text ∧ Printed text.toList n.statementWords := by
  have hsemicolon : Printed [';'] [.fixed ";"] := Printed.nil.mark (by decide)
  cases h with
  | @variableDeclaration name inner span initializer h hi =>
    obtain ⟨text, hprinted, hinitializer, -⟩ := exists_writes hi
    refine ⟨"var " ++ name ++ " = " ++ text ++ ";", ?_, ?_⟩
    · simp only [statementText, nameText, hprinted]
      rfl
    · have hend := hinitializer.append hsemicolon fun _ _ => ends_cons (by decide) _
      have hvalue := Printed.equal.append (hend.blank (.inl rfl)) fun _ _ => ends_cons (by decide) _
      have hname := (Printed.name h).append (hvalue.blank (.inl rfl))
        fun _ _ => ends_cons (by decide) _
      have hvar : Printed "var".toList [.fixed "var"] := .keyword (by decide)
      have hall := hvar.append (hname.blank (.inl rfl)) fun _ _ => ends_cons (by decide) _
      have hwords : (variableDeclaration (identifier name inner) initializer span).statementWords =
          .fixed "var" :: ([.name name] ++ .fixed "=" :: (initializer.words ++ [.fixed ";"])) := rfl
      rw [hwords]
      simpa [String.toList_append] using hall
  | @expressionStatement expression span h =>
    obtain ⟨text, hprinted, hwords, -⟩ := exists_writes h
    refine ⟨text ++ ";", ?_, ?_⟩
    · simp only [statementText, hprinted]
      rfl
    · rw [String.toList_append]
      exact hwords.append hsemicolon fun _ _ => ends_cons (by decide) _

/-- The lines of the statements of a program are put together of their words. -/
theorem exists_lines {ns : List Node} (h : ∀ n ∈ ns, n.IsStatement) :
    ∃ lines, ns.mapM statementText = .ok lines ∧
      Printed (lines.flatMap fun line => line.toList ++ ['\n']) (ns.flatMap statementWords) := by
  induction ns with
  | nil => exact ⟨[], rfl, .nil⟩
  | cons n ns ih =>
    obtain ⟨hn, hns⟩ := List.forall_mem_cons.1 h
    obtain ⟨line, hline, hwords⟩ := exists_statementText hn
    obtain ⟨lines, hlines, hmore⟩ := ih hns
    refine ⟨line :: lines, ?_, ?_⟩
    · rw [List.mapM_cons, hline, hlines]
      rfl
    · rw [List.flatMap_cons, List.flatMap_cons, List.append_assoc, List.singleton_append]
      exact hwords.append (hmore.blank (.inr rfl)) fun _ _ => ends_cons (by decide) _

/-- Every program has a text, which is put together of its words. -/
theorem exists_printed {n : Node} (h : n.IsProgram) :
    ∃ text, n.programText = .ok text ∧ Printed text.toList n.programWords := by
  cases h with
  | @program ns span h =>
    obtain ⟨lines, hlines, hwords⟩ := exists_lines h
    refine ⟨String.join (lines.map (· ++ "\n")), ?_, ?_⟩
    · simp only [programText, hlines]
      rfl
    · rw [String.toList_join, List.flatMap_map]
      simpa [programWords] using hwords

/-- The words of the text of a program are those of the program. -/
theorem exists_programText {n : Node} (h : n.IsProgram) :
    ∃ text, n.programText = .ok text ∧ wordsOf text.toList = n.programWords := by
  obtain ⟨text, htext, hwords⟩ := exists_printed h
  exact ⟨text, htext, by simpa using hwords.spells [] ends_nil⟩

/-! ## Flaws -/

theorem flaws_guardedWords {n : Node} {ws : List Word} (h : ∀ w ∈ ws, w.flaws = []) (needed : Nat) :
    ∀ w ∈ guardedWords needed n ws, w.flaws = [] := by
  unfold guardedWords
  split
  · simpa [or_imp, forall_and] using ⟨rfl, h, rfl⟩
  · exact h

mutual

theorem flaws_words (n : Node) : ∀ w ∈ n.words, w.flaws = [] := by
  cases n with
  | literal value span =>
    intro w hw
    obtain rfl := List.mem_singleton.1 hw
    cases value with
    | bool b => cases b <;> rfl
    | _ => rfl
  | identifier name span => exact List.forall_mem_singleton.2 rfl
  | call callee arguments span =>
    have hcallee := flaws_words callee
    have harguments := flaws_argumentWords arguments
    simpa [words, or_imp, forall_and] using ⟨hcallee, rfl, harguments, rfl⟩
  | unary operator operand span =>
    exact List.forall_mem_cons.2 ⟨rfl, flaws_guardedWords (flaws_words operand) _⟩
  | binary operator left right span =>
    exact List.forall_mem_append.2 ⟨flaws_guardedWords (flaws_words left) _,
      List.forall_mem_cons.2 ⟨rfl, flaws_guardedWords (flaws_words right) _⟩⟩
  | _ => exact List.forall_mem_nil _

theorem flaws_argumentWords (ns : List Node) : ∀ w ∈ words.argumentWords ns, w.flaws = [] := by
  cases ns with
  | nil => exact List.forall_mem_nil _
  | cons n ns => exact List.forall_mem_append.2 ⟨flaws_words n, flaws_furtherWords ns⟩

theorem flaws_furtherWords (ns : List Node) : ∀ w ∈ words.furtherWords ns, w.flaws = [] := by
  cases ns with
  | nil => exact List.forall_mem_nil _
  | cons n ns =>
    exact List.forall_mem_cons.2
      ⟨rfl, List.forall_mem_append.2 ⟨flaws_words n, flaws_furtherWords ns⟩⟩

end

theorem flaws_statementWords (n : Node) : ∀ w ∈ n.statementWords, w.flaws = [] := by
  cases n with
  | variableDeclaration name initializer span =>
    have hname := flaws_words name
    have hinitializer := flaws_words initializer
    simpa [statementWords, or_imp, forall_and] using ⟨rfl, hname, rfl, hinitializer, rfl⟩
  | expressionStatement expression span =>
    exact List.forall_mem_append.2 ⟨flaws_words expression, List.forall_mem_singleton.2 rfl⟩
  | _ => exact List.forall_mem_nil _

/-- The words that a program is written as have no flaws. -/
theorem flaws_programWords (n : Node) : ∀ w ∈ n.programWords, w.flaws = [] := by
  cases n with
  | program statements span =>
    intro w hw
    obtain ⟨n, -, hw⟩ := List.mem_flatMap.1 hw
    exact flaws_statementWords n w hw
  | _ => exact List.forall_mem_nil _

end RuleLang.Node
