import RuleLang.Proofs.Grammar.Calls
import RuleLang.Proofs.Token.Tiling
import RuleLang.Session

/-!
The list of a session is only added to and has no part in the work. Scanners and parsers are handed
the list and might look at it, but what they make of a text is the same whatever stands there, and
what they report goes to its end (`step_of_reads`). A copy of the list is changed by clearing it and
by nothing else, and clearing it changes nothing else (`copies_after`). So a step that reads comes
to what it would come to if all steps before it had found the list empty, and those that do not read
had been left out (`session_outcome`).
-/
namespace RuleLang

open Grammar

/-! ## Scanners -/

namespace Scanner

/-- The tokens of a text and what there is to report about them, as its placed words give them. -/
theorem scan_eq (file : String) (place : Position) (text : List Char) (found : List Diagnostic) :
    let words := Chunk.placed place (Chunk.ofSource text)
    scan file place text found =
      (words.map (fun x => x.2.toToken file x.1) ++ [.endOf file (place.after text)],
        place.after text, found ++ words.flatMap fun x => x.2.diagnostics file x.1) := by
  fun_induction Chunk.ofSource text generalizing place found with
  | case1 => simp [scan, Chunk.placed]
  | case2 c rest ih =>
    have hplace : (place.after (Chunk.read c rest).1.text).after (Chunk.read c rest).2 =
        place.after (c :: rest) := by
      rw [← Position.after_append, Chunk.read_append]
    rw [scan]
    split
    · rename_i cs hchunk
      rw [ih, hplace, hchunk]
      rfl
    · rename_i w hchunk
      rw [ih, hplace, hchunk]
      simp [Chunk.placed, Chunk.text]

/-- A new scanner cuts a source text into its tokens. -/
theorem tokenize_ofSource (source file : String) (found : List Diagnostic) :
    ((ofSource source file).tokenize found).1 = (lex source file).tokens ∧
      ((ofSource source file).tokenize found).2.2 = found ++ (lex source file).diagnostics := by
  rw [tokenize, scan_eq]
  exact ⟨rfl, rfl⟩

/-- A scanner finds the same whatever was found before. -/
theorem tokenize_apart (s : Scanner) (found : List Diagnostic) :
    s.tokenize found =
      ((s.tokenize []).1, (s.tokenize []).2.1, found ++ (s.tokenize []).2.2) := by
  simp only [tokenize, scan_eq, List.nil_append]

end Scanner

/-! ## Parsers -/

namespace Cursor

/-- A parser reads the same whatever was found before. -/
theorem read_apart {source : TokenStream} {p : Nat} (hp : p ≤ source.ahead.length) (o : Options)
    (goal : Goal) :
    let attempt := goal.read o.levels (source.dropped p)
    ∃ q, q ≤ source.ahead.length ∧ ∀ reported,
      read source o ⟨p, 0, reported⟩ goal =
        (attempt.outcome, ⟨q, 0, reported ++ o.diagnose attempt.faults⟩) := by
  obtain ⟨q, hq, hrest, -⟩ := read_agrees source o goal p []
  refine ⟨q, hq.within hp, fun reported => ?_⟩
  obtain ⟨q', hq', hrest', hread⟩ := read_agrees source o goal p reported
  rw [hread, dropped_inj (hq'.within hp) (hq.within hp) (hrest'.symm.trans hrest)]

end Cursor

/-! ## Steps -/

namespace Session

/-- Between its calls a parser uses no level of nesting and is not behind the end of its tokens. -/
structure Parser.Rests (p : Parser) : Prop where
  depth : p.depth = 0
  position : p.position ≤ p.source.ahead.length

def Rests (s : Session) : Prop := ∀ p ∈ s.parsers, p.Rests

/-- The session with an empty list and no copies of it. -/
def emptied (s : Session) : Session := { s with diagnostics := [], copies := [] }

/-- The session with the list of another one in front of its own, and with the copies of that. -/
def behind (s t : Session) : Session :=
  { s with diagnostics := t.diagnostics ++ s.diagnostics, copies := t.copies }

/-- Whether a step cuts a text or reads tokens. -/
def Step.reads : Step → Bool
  | .lex .. | .lexAgain .. | .parser .. | .parse .. => true
  | .error .. | .takeCopy | .clearCopy .. | .iterate | .formatAll | .records => false

/-- The session behind a step; one that cannot be taken leaves it as it is. -/
def after (s : Session) (step : Step) : Session :=
  match s.step step with
  | .ok (next, _) => next
  | .error _ => s

def outcome (s : Session) (step : Step) : Except Failure Answer :=
  match s.step step with
  | .ok (_, answer) => .ok answer
  | .error e => .error e

variable {s t : Session} {step : Step}

theorem reportEach_eq (s : Session) (ds : List Diagnostic) :
    s.reportEach ds = ({ s with
      diagnostics := s.diagnostics ++ ds.map fun _ => iterationError }, ds) := by
  induction ds generalizing s with
  | nil => simp [reportEach]
  | cons d ds ih => simp [reportEach, ih, report]

theorem Parser.Rests.exists_read {p : Parser} (h : p.Rests) (goal : Goal) :
    ∃ outcome q found, q ≤ p.source.ahead.length ∧ ∀ reported,
      Cursor.read p.source p.options ⟨p.position, p.depth, reported⟩ goal =
        (outcome, ⟨q, 0, reported ++ found⟩) := by
  obtain ⟨q, hq, hread⟩ := Cursor.read_apart h.position p.options goal
  rw [h.depth]
  exact ⟨_, q, _, hq, hread⟩

/-- A step that reads comes to the same with an empty list, and adds what it reports at the end. -/
theorem step_of_reads (hs : s.Rests) (h : step.reads = true) :
    s.step step =
      (s.emptied.step step).map fun (next, answer) => (next.behind s, answer) := by
  cases step with
  | lex source file =>
    rw [Session.step, Scanner.tokenize_apart]
    rfl
  | lexAgain i =>
    rw [Session.step, Session.step, show s.emptied.scanners = s.scanners from rfl]
    cases s.scanners[i]? with
    | none => rfl
    | some scanner =>
      dsimp only
      rw [Scanner.tokenize_apart]
      rfl
  | parser i options =>
    rw [Session.step, Session.step, show s.emptied.tokens = s.tokens from rfl]
    cases streamOf (s.tokens[i]?.getD []) with
    | error e => rfl
    | ok source => simp [Except.map, behind, emptied]
  | parse i goal =>
    rw [Session.step, Session.step, show s.emptied.parsers = s.parsers from rfl]
    cases hp : s.parsers[i]? with
    | none => rfl
    | some p =>
      obtain ⟨outcome, q, found, -, hread⟩ :=
        (hs p (List.mem_of_getElem? hp)).exists_read goal
      dsimp only
      rw [hread, hread]
      cases outcome <;> rfl
  | error | takeCopy | clearCopy | iterate | formatAll | records => exact nomatch h

/-- A step that does not read adds to the list and changes copies of it at most. -/
theorem step_of_not_reads (h : step.reads = false) {next : Session} {answer : Answer}
    (hstep : s.step step = .ok (next, answer)) : ∃ found copies, next = { s with
      diagnostics := s.diagnostics ++ found, copies } := by
  cases step with
  | error message span production =>
    cases hstep
    exact ⟨_, _, rfl⟩
  | takeCopy =>
    cases hstep
    exact ⟨[], _, by rw [List.append_nil]⟩
  | clearCopy i =>
    rw [Session.step] at hstep
    split at hstep
    · exact nomatch hstep
    · cases hstep
      exact ⟨[], _, by rw [List.append_nil]⟩
  | iterate =>
    rw [Session.step, reportEach_eq] at hstep
    cases hstep
    exact ⟨_, _, rfl⟩
  | formatAll =>
    rw [Session.step] at hstep
    split at hstep
    · cases hstep
      exact ⟨[], _, by rw [List.append_nil]⟩
    · exact nomatch hstep
  | records =>
    rw [Session.step] at hstep
    split at hstep
    · cases hstep
      exact ⟨[], _, by rw [List.append_nil]⟩
    · exact nomatch hstep
  | lex | lexAgain | parser | parse => exact nomatch h

/-- No step leaves a parser within a call. -/
theorem rests_after (hs : s.Rests) (step : Step) : (s.after step).Rests := by
  rw [after]
  cases hstep : s.step step with
  | error e => exact hs
  | ok x =>
    obtain ⟨next, answer⟩ := x
    cases hreads : step.reads with
    | false =>
      obtain ⟨found, copies, rfl⟩ := step_of_not_reads hreads hstep
      exact hs
    | true =>
      cases step with
      | lex source file =>
        cases hstep
        exact hs
      | lexAgain i =>
        rw [Session.step] at hstep
        split at hstep
        · exact nomatch hstep
        · cases hstep
          exact hs
      | parser i options =>
        rw [Session.step] at hstep
        split at hstep
        · exact nomatch hstep
        · cases hstep
          exact List.forall_mem_cons.2 ⟨⟨rfl, Nat.zero_le _⟩, hs⟩
      | parse i goal =>
        rw [Session.step] at hstep
        split at hstep
        · exact nomatch hstep
        · rename_i p hp
          obtain ⟨outcome, q, found, hq, hread⟩ := (hs p (List.mem_of_getElem? hp)).exists_read goal
          rw [hread] at hstep
          have hset : ∀ p' ∈ s.parsers.set i { p with position := q, depth := 0 }, p'.Rests := by
            intro p' hp'
            obtain hold | rfl := List.mem_or_eq_of_mem_set hp'
            · exact hs p' hold
            · exact ⟨rfl, hq⟩
          cases outcome with
          | ok node =>
            cases hstep
            exact hset
          | error fault =>
            cases hstep
            exact hset
      | _ => exact nomatch hreads

theorem prefix_after (hs : s.Rests) (step : Step) :
    s.diagnostics <+: (s.after step).diagnostics := by
  rw [after]
  cases hstep : s.step step with
  | error e => exact List.prefix_rfl
  | ok x =>
    obtain ⟨next, answer⟩ := x
    cases hreads : step.reads with
    | false =>
      obtain ⟨found, copies, rfl⟩ := step_of_not_reads hreads hstep
      exact List.prefix_append _ _
    | true =>
      rw [step_of_reads hs hreads] at hstep
      cases halone : s.emptied.step step with
      | error e =>
        rw [halone] at hstep
        exact nomatch hstep
      | ok x =>
        rw [halone] at hstep
        cases hstep
        exact List.prefix_append _ _

/-- A step that reads has the outcome that it has with an empty list, and what is new in the list is
what it then leaves there. -/
theorem after_of_reads (hs : s.Rests) (h : step.reads = true) :
    s.outcome step = s.emptied.outcome step ∧
      s.after step = (s.emptied.after step).behind s := by
  rw [outcome, outcome, after, after, step_of_reads hs h]
  cases s.emptied.step step with
  | error e =>
    refine ⟨rfl, ?_⟩
    simp [Except.map, behind, emptied]
  | ok x => exact ⟨rfl, rfl⟩

theorem emptied_after_of_not_reads (h : step.reads = false) :
    (s.after step).emptied = s.emptied := by
  rw [after]
  cases hstep : s.step step with
  | error e => rfl
  | ok x =>
    obtain ⟨next, answer⟩ := x
    obtain ⟨found, copies, rfl⟩ := step_of_not_reads h hstep
    rfl

/-! ## Copies -/

theorem after_clearCopy (s : Session) (i : Nat) :
    s.after (.clearCopy i) = { s with copies := s.copies.set i [] } := by
  rw [after, Session.step]
  cases hcopy : s.copies[i]? with
  | none => rw [List.set_eq_of_length_le (List.getElem?_eq_none_iff.1 hcopy)]
  | some copy => rfl

/-- Copies are taken and cleared by no other steps than those for it. -/
theorem copies_after (hs : s.Rests) (step : Step) :
    (s.after step).copies = match step with
      | .takeCopy => s.diagnostics :: s.copies
      | .clearCopy i => s.copies.set i []
      | _ => s.copies := by
  cases step with
  | lex | lexAgain | parser | parse => rw [(after_of_reads hs rfl).2, behind]
  | error | takeCopy => rfl
  | clearCopy i => rw [after_clearCopy]
  | iterate => rw [after, Session.step, reportEach_eq]
  | formatAll =>
    rw [after, Session.step]
    cases RuleLang.report s.diagnostics <;> rfl
  | records =>
    rw [after, Session.step]
    cases s.diagnostics.mapM Diagnostic.record <;> rfl

/-- A copy is of the list as it was, or was cleared. -/
theorem prefix_of_mem_copies_after (hs : s.Rests)
    (h : ∀ copy ∈ s.copies, copy <+: s.diagnostics) (step : Step) :
    ∀ copy ∈ (s.after step).copies, copy <+: (s.after step).diagnostics := by
  have hold : ∀ copy ∈ s.copies, copy <+: (s.after step).diagnostics :=
    fun copy hcopy => (h copy hcopy).trans (prefix_after hs step)
  rw [copies_after hs step]
  cases step with
  | takeCopy => exact List.forall_mem_cons.2 ⟨prefix_after hs .takeCopy, hold⟩
  | clearCopy i =>
    intro copy hcopy
    obtain hcopy | rfl := List.mem_or_eq_of_mem_set hcopy
    · exact hold copy hcopy
    · exact List.nil_prefix
  | _ => exact hold

/-! ## Runs -/

def afterAll (s : Session) (steps : List Step) : Session := steps.foldl after s

/-- The session behind those of several steps that read, each of which finds the list empty. -/
def alone (s : Session) : List Step → Session
  | [] => s.emptied
  | step :: steps => (if step.reads then s.emptied.after step else s).alone steps

/-- A run leaves the session as its steps leave it one behind the other. -/
theorem afterAll_of_run {steps : List Step} {taken : List (Session × Answer)}
    (h : s.run steps = .ok taken) : s.afterAll steps = (taken.map Prod.fst).getLastD s := by
  induction steps generalizing s taken with
  | nil =>
    cases h
    rfl
  | cons step steps ih =>
    rw [run] at h
    cases hstep : s.step step with
    | error e =>
      rw [hstep] at h
      cases h
    | ok x =>
      obtain ⟨next, answer⟩ := x
      rw [hstep] at h
      cases hrun : next.run steps with
      | error e =>
        simp only [hrun] at h
        cases h
      | ok rest =>
        simp only [hrun] at h
        cases h
        have hnext : s.after step = next := by rw [after, hstep]
        rw [List.map_cons, List.getLastD_cons, ← ih hrun, ← hnext]
        rfl

theorem rests_begin : ({} : Session).Rests := List.forall_mem_nil _

theorem rests_afterAll (hs : s.Rests) (steps : List Step) : (s.afterAll steps).Rests := by
  induction steps generalizing s with
  | nil => exact hs
  | cons step steps ih => exact ih (rests_after hs step)

theorem prefix_of_mem_copies_afterAll (hs : s.Rests)
    (h : ∀ copy ∈ s.copies, copy <+: s.diagnostics) (steps : List Step) :
    ∀ copy ∈ (s.afterAll steps).copies, copy <+: (s.afterAll steps).diagnostics := by
  induction steps generalizing s with
  | nil => exact h
  | cons step steps ih => exact ih (rests_after hs step) (prefix_of_mem_copies_after hs h step)

/-- What stands in the list at the beginning does not matter. -/
theorem alone_congr (h : s.emptied = t.emptied) (steps : List Step) :
    s.alone steps = t.alone steps := by
  induction steps generalizing s t with
  | nil => exact h
  | cons step steps ih =>
    rw [alone, alone, h]
    by_cases hreads : step.reads = true
    · rw [if_pos hreads, if_pos hreads]
    · rw [if_neg hreads, if_neg hreads]
      exact ih h

/-- But for its list and the copies, a session is what the steps that read make of it alone. -/
theorem emptied_afterAll (hs : s.Rests) (steps : List Step) :
    (s.afterAll steps).emptied = s.alone steps := by
  induction steps generalizing s with
  | nil => rfl
  | cons step steps ih =>
    have hnext := ih (rests_after hs step)
    rw [alone]
    refine hnext.trans (alone_congr ?_ steps)
    by_cases hreads : step.reads = true
    · rw [if_pos hreads, (after_of_reads hs hreads).2]
      rfl
    · rw [if_neg hreads]
      exact emptied_after_of_not_reads (Bool.not_eq_true _ ▸ hreads)

theorem hasErrors_iff : s.hasErrors = true ↔ s.diagnostics ≠ [] := by
  have hall (d : Diagnostic) : d.severity = .error := by cases d.severity; rfl
  rw [hasErrors]
  cases s.diagnostics <;> simp [hall]

/-- At any time of a session, each step leaves in the list what stands there, and the list tells
whether there are errors. A copy of the list and an iteration that adds to it see what is there at
the beginning. While the list goes on a copy stays as it was taken, until it is cleared; and that
changes nothing else. A step that reads has the outcome, and adds the diagnostics, that it would
have if there had been no steps but those that read, and each of them had found the list empty. -/
theorem session_outcome (steps : List Step) (step : Step) :
    let now := ({} : Session).afterAll steps
    let alone := ({} : Session).alone steps
    now.diagnostics <+: (now.after step).diagnostics ∧
    (now.hasErrors = true ↔ now.diagnostics ≠ []) ∧
    now.outcome .takeCopy = .ok (.diagnostics now.diagnostics) ∧
    (now.after step).copies = (match step with
      | .takeCopy => now.diagnostics :: now.copies
      | .clearCopy i => now.copies.set i []
      | _ => now.copies) ∧
    (∀ copy ∈ now.copies, copy <+: now.diagnostics) ∧
    (∀ i, now.after (.clearCopy i) = { now with copies := now.copies.set i [] }) ∧
    now.outcome .iterate = .ok (.diagnostics now.diagnostics) ∧
    (now.after .iterate).diagnostics =
      now.diagnostics ++ now.diagnostics.map (fun _ => iterationError) ∧
    (step.reads = true → alone.diagnostics = [] ∧ now.outcome step = alone.outcome step ∧
      (now.after step).diagnostics = now.diagnostics ++ (alone.after step).diagnostics) := by
  intro now alone
  have hnow : now.Rests := rests_afterAll rests_begin steps
  have halone : now.emptied = alone := emptied_afterAll rests_begin steps
  have hcopies : ∀ copy ∈ now.copies, copy <+: now.diagnostics :=
    prefix_of_mem_copies_afterAll rests_begin (List.forall_mem_nil _) steps
  refine ⟨prefix_after hnow step, hasErrors_iff, rfl, copies_after hnow step, hcopies,
    after_clearCopy now, ?_, ?_, fun hreads => ?_⟩
  · rw [outcome, Session.step, reportEach_eq]
  · rw [after, Session.step, reportEach_eq]
  · obtain ⟨houtcome, hafter⟩ := after_of_reads hnow hreads
    rw [← halone]
    refine ⟨rfl, houtcome, ?_⟩
    rw [hafter]
    rfl

end Session

end RuleLang
