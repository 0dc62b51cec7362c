import Mathlib.Data.List.NodupEquivFin
import RuleLang.Grammar.Goal
import RuleLang.Parse
import RuleLang.Proofs.Grammar.Confinement

/-!
Recovery after faulty statements. The tokens of a source fall into segments, each of which ends with
its only semicolon, but for the last one. A program is read as its segments would be read on their
own, one after the other, up to one that ends reading (`program_recovery`).
-/
namespace RuleLang.Grammar

open Reader

/-! ## Statements -/

/-- What a statement comes to whose tokens `pre` stand in front of `stop`, the first semicolon or
end mark: it is read with a semicolon, or a fault is found in its tokens. Then reading goes on in
front of `stop`, unless it is the extent of the semicolon that cannot be measured. -/
inductive Outcome (levels : Nat) (pre : List Token) (stop : Token) : Prop where
  | complete (node : Node) (read : ∀ s : TokenStream, s.current = stop →
      statement levels (s.prepend pre) = .ok node s.advance)
  | faulty (fault : Fault) (found : fault.IsAmong (pre ++ [stop])) (rest : List Token)
      (suffix : rest <:+ pre) (read : ∀ s : TokenStream, s.current = stop →
        statement levels (s.prepend pre) = .error fault (s.prepend rest))
  | unmeasured (e : Span.LengthError) (semicolon : stop.kind = .semicolon)
      (length : stop.span.isEmpty = .error e) (read : ∀ s : TokenStream, s.current = stop →
        statement levels (s.prepend pre) = .error (.unmeasured e stop) s.advance)

section Statements

variable {levels : Nat} {scope pre : List Token} {stop : Token}

theorem declaration_confinedAt {word : Token} (hb : Bounded scope (word :: pre) stop) :
    ConfinedAt scope (word :: pre) stop (declaration levels) := by
  unfold declaration
  apply confinedAt_advance hb
  have hb := hb.of_suffix (List.suffix_cons word pre)
  apply (expect_confined _ (by decide) (by decide) hb).bind
  intro name rest hrest
  have hb := hb.of_suffix hrest
  apply (expect_confined _ (by decide) (by decide) hb).bind
  intro _ more hmore
  exact (expression_confined levels (hb.of_suffix hmore)).bind fun _ _ _ => confinedAt_pure _

theorem terminator_cons {t : Token} (ht : t.kind ≠ .semicolon ∧ t.kind ≠ .eof) (e : SyntaxError)
    (ts : List Token) (s : TokenStream) :
    terminator e (s.prepend (t :: ts)) = .error (.unexpected e t) (s.prepend (t :: ts)) := by
  unfold terminator
  rw [bind_of_ok (accept_of_not_mem (by simpa using ht.1))]
  change (if t.kind = .eof then pure none
    else throw (.unexpected e t) : Reader (Option Token)) _ = _
  rw [if_neg ht.2]
  rfl

theorem terminator_semicolon {s : TokenStream} (hs : s.current.kind = .semicolon)
    (e : SyntaxError) : terminator e s = .ok (some s.current) s.advance := by
  have haccept : accept [.semicolon] s = .ok (some s.current) s.advance := by
    simp [accept, hs]
  unfold terminator
  rw [bind_of_ok haccept]
  rfl

theorem advance_eq_self {s : TokenStream} (hs : s.current.kind = .eof) : s.advance = s := by
  obtain ⟨ahead, last, eof⟩ := s
  cases ahead with
  | nil => rfl
  | cons t rest =>
    have : t.kind = .eof := hs
    simp [TokenStream.advance, this]

theorem terminator_eof {s : TokenStream} (hs : s.current.kind = .eof) (e : SyntaxError) :
    terminator e s = .ok none s.advance := by
  unfold terminator
  rw [bind_of_ok (accept_of_not_mem (by simp [hs])), advance_eq_self hs]
  change (if s.current.kind = .eof then pure none else throw _ : Reader (Option Token)) s = _
  rw [if_pos hs]
  rfl

/-- A statement ends in front of the end mark, or with a semicolon. -/
theorem terminator_ok {s s' : TokenStream} {e : SyntaxError} {found : Option Token}
    (h : terminator e s = .ok found s') :
    (found = none ∧ s' = s ∧ s.current.kind = .eof) ∨
    ∃ t, found = some t ∧ t.kind = .semicolon ∧ s = s'.prepend [t] := by
  unfold terminator at h
  rw [bind_eq_ok] at h
  obtain ⟨accepted, u, haccepted, h⟩ := h
  cases accepted with
  | some t =>
    obtain ⟨ht, rfl⟩ := accept_some haccepted (by decide)
    obtain ⟨rfl, rfl⟩ := pure_eq_ok.1 h
    exact .inr ⟨t, rfl, List.mem_singleton.1 ht, rfl⟩
  | none =>
    obtain ⟨-, rfl⟩ := accept_none haccepted
    dsimp only at h
    rw [bind_of_ok (current_apply u)] at h
    split at h
    · rename_i heof
      obtain ⟨rfl, rfl⟩ := pure_eq_ok.1 h
      exact .inl ⟨rfl, rfl, heof⟩
    · cases h

/-- A terminator takes no more tokens, and changes at most the place of its statement. -/
theorem terminated_ok {s s' : TokenStream} {n m : Node} {found : Option Token}
    (h : terminated n found s = .ok m s') : s' = s ∧ (m = n ∨ ∃ span, m = n.withSpan span) := by
  cases found with
  | none =>
    obtain ⟨rfl, rfl⟩ := pure_eq_ok.1 h
    exact ⟨rfl, .inl rfl⟩
  | some t =>
    cases hempty : t.span.isEmpty with
    | error e =>
      simp only [terminated, hempty] at h
      cases h
    | ok empty =>
      simp only [terminated, hempty] at h
      cases empty with
      | true =>
        obtain ⟨rfl, rfl⟩ := pure_eq_ok.1 h
        exact ⟨rfl, .inl rfl⟩
      | false =>
        obtain ⟨rfl, rfl⟩ := pure_eq_ok.1 h
        exact ⟨rfl, .inr ⟨_, rfl⟩⟩

/-- A phrase and its terminator: nothing may stand between them. -/
theorem outcome_of_confinedAt {r : Reader Node} {f : Node → Node} {e : SyntaxError}
    (hb : Bounded (pre ++ [stop]) pre stop) (hr : ConfinedAt (pre ++ [stop]) pre stop r)
    (hs : ∀ s : TokenStream, s.current = stop → statement levels (s.prepend pre) =
      (do
        let phrase ← r
        terminated (f phrase) (← terminator e) : Reader Node) (s.prepend pre)) :
    Outcome levels pre stop := by
  obtain ⟨phrase, rest, hrest, hr⟩ | ⟨fault, rest, hrest, hfound, hr⟩ := hr
  · have hphrase (s : TokenStream) (h : s.current = stop) : statement levels (s.prepend pre) =
        (do terminated (f phrase) (← terminator e) : Reader Node) (s.prepend rest) :=
      (hs s h).trans (bind_of_ok (hr s h))
    cases rest with
    | cons t rest =>
      have ht : t ∈ pre := hrest.subset List.mem_cons_self
      refine .faulty (.unexpected e t) (hb.mem t ht) (t :: rest) hrest fun s h => ?_
      exact (hphrase s h).trans (bind_of_error (terminator_cons (hb.inner t ht) e rest s))
    | nil =>
      rcases hb.stop_kind with hstop | hstop
      · have hterminated (s : TokenStream) (h : s.current = stop) :
            statement levels (s.prepend pre) = terminated (f phrase) (some stop) s.advance := by
          rw [hphrase s h, TokenStream.prepend_nil,
            bind_of_ok (terminator_semicolon (by rw [h, hstop]) e), h]
        unfold terminated at hterminated
        cases hempty : stop.span.isEmpty with
        | ok empty =>
          simp only [hempty] at hterminated
          cases empty with
          | true => exact .complete _ hterminated
          | false => exact .complete _ hterminated
        | error e =>
          simp only [hempty] at hterminated
          exact .unmeasured e hstop hempty hterminated
      · refine .complete (f phrase) fun s h => ?_
        rw [hphrase s h, TokenStream.prepend_nil,
          bind_of_ok (terminator_eof (by rw [h, hstop]) e)]
        rfl
  · refine .faulty fault hfound rest hrest fun s h => ?_
    exact (hs s h).trans (bind_of_error (hr s h))

/-- A statement comes to one outcome, whatever stands behind it. -/
theorem statement_outcome (levels : Nat) (hb : Bounded (pre ++ [stop]) pre stop) :
    Outcome levels pre stop := by
  by_cases hvar : (pre.headD stop).kind = .var
  · cases pre with
    | nil => rcases hb.stop_kind with e | e <;> simp_all
    | cons word pre =>
      refine outcome_of_confinedAt (f := id) (e := .semicolonAfterDeclaration) hb
        (declaration_confinedAt hb : ConfinedAt _ _ _ (declaration levels)) fun s hs => ?_
      unfold statement
      rw [bind_of_ok (current_apply _), current_prepend hs, if_pos hvar]
      rfl
  · refine outcome_of_confinedAt (f := fun phrase => .expressionStatement phrase phrase.span)
      (e := .semicolonAfterExpression) hb (expression_confined levels hb) fun s hs => ?_
    unfold statement
    rw [bind_of_ok (current_apply _), current_prepend hs, if_neg hvar]

/-- From a faulty statement reading goes on behind its terminator. -/
theorem synchronize_prepend (hb : Bounded scope pre stop) {s : TokenStream}
    (hs : s.current = stop) : (s.prepend pre).synchronize = s.advance := by
  induction pre with
  | nil =>
    obtain ⟨ahead, last, eof⟩ := s
    cases ahead with
    | nil => rfl
    | cons t rest =>
      obtain rfl : t = stop := hs
      rcases hb.stop_kind with e | e <;>
        simp [TokenStream.synchronize, TokenStream.behindSemicolon, TokenStream.advance, e]
  | cons t pre ih =>
    obtain ⟨hsemicolon, heof⟩ := hb.inner t List.mem_cons_self
    rw [← ih (hb.of_suffix (List.suffix_cons t pre))]
    simp [TokenStream.synchronize, TokenStream.prepend, TokenStream.behindSemicolon, hsemicolon,
      heof]

end Statements

/-! ## Segments -/

/-- The tokens up to and including each semicolon, and those behind the last one if there are
any. -/
def segments : List Token → List (List Token)
  | [] => []
  | t :: rest =>
    if t.kind = .semicolon then [t] :: segments rest
    else
      match segments rest with
      | [] => [[t]]
      | segment :: more => (t :: segment) :: more

theorem segments_semicolon {pre : List Token} {stop : Token}
    (hpre : ∀ t ∈ pre, t.kind ≠ .semicolon) (hstop : stop.kind = .semicolon) (more : List Token) :
    segments (pre ++ stop :: more) = (pre ++ [stop]) :: segments more := by
  induction pre with
  | nil => simp [segments, hstop]
  | cons t pre ih =>
    have ht : t.kind ≠ .semicolon := hpre t List.mem_cons_self
    have hrest := ih fun u hu => hpre u (List.mem_cons_of_mem t hu)
    simp [segments, ht, hrest]

theorem segments_tail {pre : List Token} (hpre : ∀ t ∈ pre, t.kind ≠ .semicolon)
    (hne : pre ≠ []) : segments pre = [pre] := by
  induction pre with
  | nil => exact absurd rfl hne
  | cons t pre ih =>
    have ht : t.kind ≠ .semicolon := hpre t List.mem_cons_self
    cases pre with
    | nil => simp [segments, ht]
    | cons u pre =>
      have hrest := ih (fun v hv => hpre v (List.mem_cons_of_mem t hv)) (List.cons_ne_nil u pre)
      rw [segments, if_neg ht, hrest]

/-- The segments make up the tokens. -/
theorem flatten_segments (ts : List Token) : (segments ts).flatten = ts := by
  induction ts with
  | nil => rfl
  | cons t rest ih =>
    unfold segments
    split
    · simp [ih]
    · split
      · rename_i h
        simp [h] at ih
        simp [← ih]
      · rename_i h
        simp [h] at ih
        simp [← ih]

/-- The first semicolon of a list of tokens, if it has one. -/
theorem exists_first_semicolon (ts : List Token) : (∀ t ∈ ts, t.kind ≠ .semicolon) ∨
    ∃ pre stop more, ts = pre ++ stop :: more ∧ (∀ t ∈ pre, t.kind ≠ .semicolon) ∧
      stop.kind = .semicolon := by
  induction ts with
  | nil => exact .inl (by simp)
  | cons t rest ih =>
    by_cases ht : t.kind = .semicolon
    · exact .inr ⟨[], t, rest, rfl, by simp, ht⟩
    · rcases ih with hrest | ⟨pre, stop, more, rfl, hpre, hstop⟩
      · exact .inl (List.forall_mem_cons.2 ⟨ht, hrest⟩)
      · exact .inr ⟨t :: pre, stop, more, rfl, List.forall_mem_cons.2 ⟨ht, hpre⟩, hstop⟩

/-- What holds of a source without tokens and of a single segment, and of a segment with the source
behind it if it holds of that source, holds of every source. -/
theorem segments_induction {P : List Token → Prop} (nil : P [])
    (tail : ∀ pre : List Token, pre ≠ [] → (∀ t ∈ pre, t.kind ≠ .semicolon) → P pre)
    (segment : ∀ (pre : List Token) (stop : Token) (more : List Token),
      (∀ t ∈ pre, t.kind ≠ .semicolon) → stop.kind = .semicolon → P more → P (pre ++ stop :: more))
    (ts : List Token) : P ts := by
  induction h : ts.length using Nat.strongRecOn generalizing ts with
  | ind n ih =>
    rcases exists_first_semicolon ts with hts | ⟨pre, stop, more, rfl, hpre, hstop⟩
    · by_cases hne : ts = []
      · exact hne ▸ nil
      · exact tail ts hne hts
    · simp only [List.length_append, List.length_cons] at h
      exact segment pre stop more hpre hstop (ih more.length (by omega) more rfl)

/-! ## Programs -/

/-- The tree that an attempt gives. -/
def Attempt.node? (a : Attempt) : Option Node :=
  match a.outcome with
  | .ok node => node
  | .error _ => none

/-- Whether reading goes on with the next statement. -/
def Attempt.goesOn (a : Attempt) : Bool := a.faults.all Fault.isRecoverable

/-- The attempt to read a segment as a statement on its own, in front of the end of the source. -/
def attempt (levels : Nat) (source : TokenStream) (segment : List Token) : Attempt :=
  Goal.statement.read levels (source.atEnd.prepend segment)

/-- The attempts to read segments, up to the first one that ends reading. -/
def attempts (levels : Nat) (source : TokenStream) : List (List Token) → List Attempt
  | [] => []
  | segment :: more =>
    attempt levels source segment ::
      if (attempt levels source segment).goesOn then attempts levels source more else []

section Programs

variable (levels : Nat) {pre : List Token} {stop : Token} {s : TokenStream}

theorem attempts_cons (s : TokenStream) (segment : List Token) (more : List (List Token)) :
    attempts levels s (segment :: more) = attempt levels s segment ::
      if (attempt levels s segment).goesOn then attempts levels s more else [] :=
  rfl

theorem nodes_attempts_cons (s : TokenStream) (segment : List Token) (more : List (List Token)) :
    (attempts levels s (segment :: more)).filterMap Attempt.node? =
      (attempt levels s segment).node?.toList ++
        if (attempt levels s segment).goesOn then (attempts levels s more).filterMap Attempt.node?
        else [] := by
  rw [attempts_cons, List.filterMap_cons]
  cases (attempt levels s segment).node? <;> cases (attempt levels s segment).goesOn <;> rfl

theorem faults_attempts_cons (s : TokenStream) (segment : List Token) (more : List (List Token)) :
    (attempts levels s (segment :: more)).flatMap Attempt.faults =
      (attempt levels s segment).faults ++
        if (attempt levels s segment).goesOn then (attempts levels s more).flatMap Attempt.faults
        else [] := by
  rw [attempts_cons, List.flatMap_cons]
  cases (attempt levels s segment).goesOn <;> rfl

/-- A segment is read in front of the rest of the source as it is read on its own, and reading goes
on behind it. -/
theorem statements_segment (hb : Bounded (pre ++ [stop]) pre stop) (hs : s.current = stop)
    {alone : TokenStream} (halone : alone.current = stop)
    (hne : (s.prepend pre).current.kind ≠ .eof) (count : Nat) :
    let a := Goal.statement.read levels (alone.prepend pre)
    let read := statements levels (count + 1) (s.prepend pre)
    let more := statements levels count s.advance
    read.nodes = a.node?.toList ++ (if a.goesOn then more.nodes else []) ∧
    read.faults = a.faults ++ (if a.goesOn then more.faults else []) := by
  intro a read more
  have hread : read = statements levels (count + 1) (s.prepend pre) := rfl
  unfold statements at hread
  rw [if_neg hne] at hread
  cases statement_outcome levels hb with
  | complete node hr =>
    have ha : a = .ofResult (.ok node alone.advance) := congrArg Attempt.ofResult (hr alone halone)
    rw [hr s hs] at hread
    rw [ha, hread]
    exact ⟨rfl, rfl⟩
  | faulty fault found rest suffix hr =>
    have ha : a = .ofResult (.error fault (alone.prepend rest)) :=
      congrArg Attempt.ofResult (hr alone halone)
    rw [hr s hs] at hread
    dsimp only at hread
    rw [synchronize_prepend (hb.of_suffix suffix) hs] at hread
    have hgo : a.goesOn = fault.isRecoverable := by simp [ha, Attempt.goesOn, Attempt.ofResult]
    rw [hread, hgo, ha]
    cases fault.isRecoverable <;> exact ⟨rfl, rfl⟩
  | unmeasured e _ _ hr =>
    have ha : a = .ofResult (.error (.unmeasured e stop) alone.advance) :=
      congrArg Attempt.ofResult (hr alone halone)
    rw [hr s hs] at hread
    rw [hread, ha]
    exact ⟨rfl, rfl⟩

theorem current_ne_eof {ts : List Token} (hne : ts ≠ []) (once : ∀ t ∈ ts, t.kind ≠ .eof)
    (s : TokenStream) : (s.prepend ts).current.kind ≠ .eof := by
  cases ts with
  | nil => exact absurd rfl hne
  | cons t ts => exact once t List.mem_cons_self

theorem statements_atEnd (count : Nat) (s : TokenStream) :
    statements levels count s.atEnd = ⟨[], [], s.atEnd⟩ := by
  cases count with
  | zero => rfl
  | succ count =>
    unfold statements
    rw [if_pos (show s.atEnd.current.kind = .eof from s.last_eof)]

theorem bounded_tail (hpre : ∀ t ∈ pre, t.kind ≠ .semicolon) (once : ∀ t ∈ pre, t.kind ≠ .eof)
    (s : TokenStream) : Bounded (pre ++ [s.last]) pre s.last where
  mem _ ht := List.mem_append_left _ ht
  inner t ht := ⟨hpre t ht, once t ht⟩
  stop_mem := List.mem_append_right _ (List.mem_singleton.2 rfl)
  stop_kind := .inr s.last_eof

theorem bounded_segment (hpre : ∀ t ∈ pre, t.kind ≠ .semicolon) (hstop : stop.kind = .semicolon)
    (once : ∀ t ∈ pre, t.kind ≠ .eof) : Bounded (pre ++ [stop]) pre stop where
  mem _ ht := List.mem_append_left _ ht
  inner t ht := ⟨hpre t ht, once t ht⟩
  stop_mem := List.mem_append_right _ (List.mem_singleton.2 rfl)
  stop_kind := .inl hstop

/-- The first semicolon or end mark of a stream, and the tokens in front of it. -/
theorem exists_stop (s : TokenStream) : ∃ pre, ∃ s' : TokenStream, s = s'.prepend pre ∧
    Bounded (pre ++ [s'.current]) pre s'.current := by
  obtain ⟨ahead, last, eof⟩ := s
  induction ahead with
  | nil => exact ⟨[], ⟨[], last, eof⟩, rfl, bounded_tail (by simp) (by simp) ⟨[], last, eof⟩⟩
  | cons t rest ih =>
    by_cases ht : t.kind = .semicolon ∨ t.kind = .eof
    · exact ⟨[], ⟨t :: rest, last, eof⟩, rfl, by simp, by simp, by simp [TokenStream.current], ht⟩
    · obtain ⟨pre, s', hs, hmem, hinner, hstop, hkind⟩ := ih
      refine ⟨t :: pre, s', ?_, fun u hu => List.mem_append_left _ hu, ?_, by simp, hkind⟩
      · rw [TokenStream.prepend_cons, ← hs]
        rfl
      · exact List.forall_mem_cons.2 ⟨not_or.1 ht, hinner⟩

/-- The statements of a source are those of its segments. -/
theorem statements_attempts {ts : List Token} (once : ∀ t ∈ ts, t.kind ≠ .eof) {count : Nat}
    (hcount : ts.length ≤ count) (s : TokenStream) :
    (statements levels count (s.atEnd.prepend ts)).nodes =
        (attempts levels s (segments ts)).filterMap Attempt.node? ∧
    (statements levels count (s.atEnd.prepend ts)).faults =
        (attempts levels s (segments ts)).flatMap Attempt.faults := by
  induction ts using segments_induction generalizing count with
  | nil =>
    rw [TokenStream.prepend_nil, statements_atEnd]
    exact ⟨rfl, rfl⟩
  | tail pre hne hpre =>
    obtain ⟨count, rfl⟩ : ∃ n, count = n + 1 :=
      ⟨count - 1, by have := List.length_pos_iff.2 hne; omega⟩
    have hlast : s.atEnd.current = s.last := rfl
    obtain ⟨hnodes, hfaults⟩ := statements_segment levels (bounded_tail hpre once s) hlast hlast
      (current_ne_eof hne once _) count
    rw [advance_eq_self (show s.atEnd.current.kind = .eof from s.last_eof), statements_atEnd]
      at hnodes hfaults
    rw [hnodes, hfaults, segments_tail hpre hne, nodes_attempts_cons, faults_attempts_cons]
    exact ⟨rfl, rfl⟩
  | segment pre stop more hpre hstop ih =>
    obtain ⟨honce, hmore⟩ := List.forall_mem_append.1 once
    obtain ⟨heof, hmore⟩ := List.forall_mem_cons.1 hmore
    obtain ⟨count, rfl⟩ : ∃ n, count = n + 1 :=
      ⟨count - 1, by simp only [List.length_append, List.length_cons] at hcount; omega⟩
    have hlength : more.length ≤ count := by
      simp only [List.length_append, List.length_cons] at hcount
      omega
    have hs : (s.atEnd.prepend (stop :: more)).current = stop := rfl
    have halone : (s.atEnd.prepend [stop]).current = stop := rfl
    have hne := current_ne_eof (s := s.atEnd) (List.append_ne_nil_of_right_ne_nil pre
      (List.cons_ne_nil stop more)) once
    rw [TokenStream.prepend_append] at hne
    obtain ⟨hnodes, hfaults⟩ := statements_segment levels (bounded_segment hpre hstop honce) hs
      halone hne count
    obtain ⟨ihnodes, ihfaults⟩ := ih hmore hlength
    rw [TokenStream.advance_prepend_cons heof] at hnodes hfaults
    rw [ihnodes] at hnodes
    rw [ihfaults] at hfaults
    rw [segments_semicolon hpre hstop, nodes_attempts_cons, faults_attempts_cons, attempt,
      TokenStream.prepend_append, TokenStream.prepend_append]
    exact ⟨hnodes, hfaults⟩

/-- Each attempt gives one tree or has one fault. -/
theorem length_attempts (s : TokenStream) (segs : List (List Token)) :
    ((attempts levels s segs).filterMap Attempt.node?).length +
      ((attempts levels s segs).flatMap Attempt.faults).length =
      (attempts levels s segs).length := by
  induction segs with
  | nil => rfl
  | cons segment more ih =>
    rw [nodes_attempts_cons, faults_attempts_cons, attempts_cons]
    have hone (r : EStateM.Result Fault TokenStream Node) :
        (Attempt.ofResult r).node?.toList.length + (Attempt.ofResult r).faults.length = 1 := by
      cases r <;> rfl
    have ha : (attempt levels s segment).node?.toList.length +
        (attempt levels s segment).faults.length = 1 := hone _
    rw [List.length_append, List.length_append, List.length_cons]
    split
    · omega
    · simp only [List.length_nil]
      omega

/-- A fault that ends reading is the last one. -/
theorem getLast?_faults_attempts {f : Fault} {segs : List (List Token)}
    (hf : f ∈ (attempts levels s segs).flatMap Attempt.faults) (hgo : f.isRecoverable = false) :
    ((attempts levels s segs).flatMap Attempt.faults).getLast? = some f := by
  induction segs with
  | nil => cases hf
  | cons segment more ih =>
    rw [faults_attempts_cons] at hf ⊢
    obtain hf | hf := List.mem_append.1 hf
    · have hstop : (attempt levels s segment).goesOn = false := by
        rw [Attempt.goesOn, List.all_eq_false]
        exact ⟨f, hf, by simp [hgo]⟩
      rw [hstop]
      change f ∈ (Attempt.ofResult _).faults at hf
      change ((Attempt.ofResult _).faults ++ []).getLast? = _
      cases hr : statement levels (s.atEnd.prepend segment) with
      | ok node rest =>
        rw [hr] at hf
        cases hf
      | error fault rest =>
        rw [hr] at hf
        rw [List.mem_singleton.1 hf]
        rfl
    · split at hf
      · rename_i hmore
        rw [if_pos hmore, List.getLast?_append, ih hf]
        rfl
      · cases hf

end Programs

/-! ## Faults -/

section Faults

variable {levels : Nat} {s s' : TokenStream}

theorem Fault.IsAmong.mono {f : Fault} {ts us : List Token} (h : f.IsAmong ts) (hs : ts ⊆ us) :
    f.IsAmong us := by
  cases f with
  | unexpected e t => exact hs h
  | tooDeep t => exact hs h
  | unmeasured e t => exact h

theorem expect_isAmong {kind : Token.Kind} {e : SyntaxError} {f : Fault}
    (h : expect kind e s = .error f s') : f.IsAmong s.toList := by
  unfold expect at h
  split at h
  · cases h
  · cases h
    exact s.current_mem

theorem accept_subset {kinds : List Token.Kind} {found : Option Token}
    (h : accept kinds s = .ok found s') : s'.toList ⊆ s.toList := by
  unfold accept at h
  split at h
  · cases h
    exact s.toList_advance_subset
  · cases h
    exact List.Subset.refl _

/-- What is wrong with an expression is found at one of the tokens of its source. -/
theorem expression_isAmong {f : Fault} (h : expression levels s = .error f s') :
    f.IsAmong s.toList := by
  obtain ⟨pre, u, rfl, hb⟩ := exists_stop s
  have hscope : pre ++ [u.current] ⊆ (u.prepend pre).toList := by
    rw [TokenStream.toList_prepend]
    exact List.append_subset.2 ⟨List.subset_append_left _ _,
      List.forall_mem_singleton.2 (List.mem_append_right _ u.current_mem)⟩
  obtain ⟨_, _, -, hr⟩ | ⟨_, _, -, hfound, hr⟩ := expression_confined levels hb
  · cases (hr u rfl).symm.trans h
  · cases (hr u rfl).symm.trans h
    exact hfound.mono hscope

theorem exists_prepend_of_expression {e : Node} (h : expression levels s = .ok e s') :
    ∃ ts, s = s'.prepend ts := by
  obtain ⟨pre, u, rfl, hb⟩ := exists_stop s
  obtain ⟨_, rest, ⟨ts, hts⟩, hr⟩ | ⟨_, _, -, -, hr⟩ := expression_confined levels hb
  · cases (hr u rfl).symm.trans h
    exact ⟨ts, by rw [← hts, TokenStream.prepend_append]⟩
  · cases (hr u rfl).symm.trans h

theorem rule_isAmong {f : Fault} (h : rule levels s = .error f s') : f.IsAmong s.toList := by
  unfold rule at h
  cases hread : expression levels s with
  | error g u =>
    rw [bind_of_error hread] at h
    cases h
    exact expression_isAmong hread
  | ok e u =>
    obtain ⟨ts, rfl⟩ := exists_prepend_of_expression hread
    rw [bind_of_ok hread] at h
    cases haccept : accept [.semicolon] u with
    | error g v =>
      unfold accept at haccept
      split at haccept <;> cases haccept
    | ok found v =>
      rw [bind_of_ok haccept] at h
      cases hexpect : expect .eof .endOfInput v with
      | ok last w =>
        rw [bind_of_ok hexpect] at h
        cases h
      | error g w =>
        rw [bind_of_error hexpect] at h
        cases h
        refine (expect_isAmong hexpect).mono (List.Subset.trans (accept_subset haccept) ?_)
        rw [TokenStream.toList_prepend]
        exact List.subset_append_right _ _

end Faults

/-! ## Diagnostics -/

/-- The tokens on which there are diagnostics. -/
def reported (o : Options) (faults : List Fault) : List Token :=
  (faults.filter fun f => (f.diagnostic? o.maxDepth).isSome).map Fault.found

theorem diagnostic?_span {limit : Number} {f : Fault} {d : Diagnostic}
    (h : f.diagnostic? limit = some d) : d.span = some f.found.span := by
  cases f with
  | unexpected e t =>
    by_cases ht : t.kind = .invalid
    · simp [Fault.diagnostic?, ht] at h
    · simp only [Fault.diagnostic?, ht, if_false, Option.some.injEq] at h
      rw [← h]
      rfl
  | tooDeep t =>
    cases h
    rfl
  | unmeasured e t => cases h

/-- Each diagnostic is on the token of its fault. -/
theorem spans_diagnose (o : Options) (faults : List Fault) :
    (o.diagnose faults).map Diagnostic.span = (reported o faults).map fun t => some t.span := by
  induction faults with
  | nil => rfl
  | cons f faults ih =>
    unfold Options.diagnose reported at ih ⊢
    cases h : f.diagnostic? o.maxDepth with
    | none => simpa [h] using ih
    | some d => simpa [h, diagnostic?_span h] using ih

/-- The token is one of the segment, or the end `last` of the source behind a segment that no
semicolon ends. -/
def StandsIn (last : Token) (segment : List Token) (t : Token) : Prop :=
  t ∈ segment ∨ t = last ∧ ∀ u ∈ segment, u.kind ≠ .semicolon

/-- What the attempt to read a segment on its own comes to: a statement; a token that does not fit,
with a diagnostic unless it is invalid by itself; a token that is nested too deep; or a semicolon
without a length. -/
inductive Settled (o : Options) (last : Token) (segment : List Token) (a : Attempt) : Prop where
  | statement (node : Node) (outcome : a.outcome = .ok (some node)) (faults : a.faults = [])
  | unexpected (e : SyntaxError) (t : Token) (outcome : a.outcome = .error (.unexpected e t))
      (faults : a.faults = [.unexpected e t])
      (place : StandsIn last segment t)
      (diagnostics : if t.kind = .invalid then o.diagnose a.faults = []
        else ∃ d, o.diagnose a.faults = [d] ∧ d.span = some t.span)
      (goesOn : a.goesOn = true)
  | tooDeep (t : Token) (outcome : a.outcome = .error (.tooDeep t))
      (faults : a.faults = [.tooDeep t])
      (place : StandsIn last segment t)
      (diagnostics : ∃ d, o.diagnose a.faults = [d] ∧ d.span = some t.span)
      (ends : a.goesOn = false)
  | unmeasured (e : Span.LengthError) (t : Token) (outcome : a.outcome = .error (.unmeasured e t))
      (faults : a.faults = [.unmeasured e t]) (place : t ∈ segment) (kind : t.kind = .semicolon)
      (length : t.span.isEmpty = .error e) (ends : a.goesOn = false)

theorem settled_of_fault {o : Options} {last : Token} {segment scope : List Token} {f : Fault}
    {a : Attempt} (outcome : a.outcome = .error f) (faults : a.faults = [f])
    (hf : f.IsAmong scope)
    (place : ∀ t ∈ scope, StandsIn last segment t) :
    Settled o last segment a := by
  cases f with
  | unexpected e t =>
    have hgoes : a.goesOn = true := by
      simp [Attempt.goesOn, faults, Fault.isRecoverable]
    refine .unexpected e t outcome faults (place t hf) ?_ hgoes
    rw [faults]
    split
    · rename_i hinvalid
      simp [Options.diagnose, Fault.diagnostic?, hinvalid]
    · rename_i hinvalid
      simp [Options.diagnose, Fault.diagnostic?, hinvalid, Diagnostic.error]
  | tooDeep t =>
    have hgoes : a.goesOn = false := by
      simp [Attempt.goesOn, faults, Fault.isRecoverable]
    refine .tooDeep t outcome faults (place t hf) ?_ hgoes
    rw [faults]
    exact ⟨_, rfl, rfl⟩
  | unmeasured e t => exact hf.elim

section Segments

variable {pre : List Token} {stop : Token} {s : TokenStream}

theorem settled_of_bounded (o : Options) (hb : Bounded (pre ++ [stop]) pre stop)
    (hs : s.current = stop) {last : Token} {segment : List Token}
    (place : ∀ t ∈ pre ++ [stop], StandsIn last segment t)
    (hsemicolon : stop.kind = .semicolon → stop ∈ segment) :
    Settled o last segment (Goal.statement.read o.levels (s.prepend pre)) := by
  change Settled o last segment (.ofResult (statement o.levels (s.prepend pre)))
  cases statement_outcome o.levels hb with
  | complete node hr =>
    rw [hr s hs]
    exact .statement node rfl rfl
  | faulty fault found rest suffix hr =>
    rw [hr s hs]
    exact settled_of_fault rfl rfl found place
  | unmeasured e hstop length hr =>
    rw [hr s hs]
    exact .unmeasured e stop rfl rfl (hsemicolon hstop) hstop length rfl

theorem settled_tail (o : Options) (hpre : ∀ t ∈ pre, t.kind ≠ .semicolon)
    (once : ∀ t ∈ pre, t.kind ≠ .eof) (s : TokenStream) :
    Settled o s.last pre (attempt o.levels s pre) := by
  refine settled_of_bounded o (bounded_tail hpre once s) (s := s.atEnd) rfl ?_ ?_
  · intro t ht
    obtain ht | ht := List.mem_append.1 ht
    · exact .inl ht
    · exact .inr ⟨List.mem_singleton.1 ht, hpre⟩
  · intro h
    rw [s.last_eof] at h
    cases h

theorem settled_segment (o : Options) (hpre : ∀ t ∈ pre, t.kind ≠ .semicolon)
    (hstop : stop.kind = .semicolon) (once : ∀ t ∈ pre, t.kind ≠ .eof) (s : TokenStream) :
    Settled o s.last (pre ++ [stop]) (attempt o.levels s (pre ++ [stop])) := by
  rw [attempt, TokenStream.prepend_append]
  exact settled_of_bounded o (bounded_segment hpre hstop once) rfl (fun t ht => .inl ht)
    fun _ => List.mem_append_right _ (List.mem_singleton.2 rfl)

theorem settled_of_mem_segments (o : Options) (s : TokenStream) {ts : List Token}
    (once : ∀ t ∈ ts, t.kind ≠ .eof) {segment : List Token} (h : segment ∈ segments ts) :
    Settled o s.last segment (attempt o.levels s segment) := by
  induction ts using segments_induction with
  | nil => cases h
  | tail pre hne hpre =>
    rw [segments_tail hpre hne] at h
    rw [List.mem_singleton.1 h]
    exact settled_tail o hpre once s
  | segment pre stop more hpre hstop ih =>
    obtain ⟨honce, hmore⟩ := List.forall_mem_append.1 once
    rw [segments_semicolon hpre hstop] at h
    obtain rfl | h := List.mem_cons.1 h
    · exact settled_segment o hpre hstop honce s
    · exact ih (List.forall_mem_cons.1 hmore).2 h

theorem mem_zip_attempts {levels : Nat} {segs : List (List Token)} {p : List Token × Attempt}
    (h : p ∈ segs.zip (attempts levels s segs)) :
    p.1 ∈ segs ∧ p.2 = attempt levels s p.1 := by
  induction segs with
  | nil => cases h
  | cons segment more ih =>
    obtain rfl | h := List.mem_cons.1 h
    · exact ⟨List.mem_cons_self, rfl⟩
    · split at h
      · exact ⟨List.mem_cons_of_mem _ (ih h).1, (ih h).2⟩
      · rw [List.zipWith_nil_right] at h
        cases h

/-- An attempt has at most one fault. -/
theorem Settled.found_sublist {o : Options} {last : Token} {segment ts : List Token} {a : Attempt}
    (h : Settled o last segment a) (hts : ∀ t, StandsIn last segment t → t ∈ ts) :
    (a.faults.map Fault.found).Sublist ts := by
  cases h with
  | statement node outcome faults => simp [faults]
  | unexpected e t outcome faults place => simpa [faults, Fault.found] using hts t place
  | tooDeep t outcome faults place => simpa [faults, Fault.found] using hts t place
  | unmeasured e t outcome faults place => simpa [faults, Fault.found] using hts t (.inl place)

/-- The faults of a source are found one behind the other. -/
theorem found_sublist (o : Options) (s : TokenStream) {ts : List Token}
    (once : ∀ t ∈ ts, t.kind ≠ .eof) :
    (((attempts o.levels s (segments ts)).flatMap Attempt.faults).map Fault.found).Sublist
      (ts ++ [s.last]) := by
  induction ts using segments_induction with
  | nil => simp [segments, attempts]
  | tail pre hne hpre =>
    rw [segments_tail hpre hne, faults_attempts_cons]
    have hends : ∀ t, StandsIn s.last pre t → t ∈ pre ++ [s.last] := by
      rintro t (ht | ⟨rfl, -⟩) <;> simp [*]
    simpa [attempts] using (settled_tail o hpre once s).found_sublist hends
  | segment pre stop more hpre hstop ih =>
    obtain ⟨honce, hmore⟩ := List.forall_mem_append.1 once
    have hmem : stop ∈ pre ++ [stop] := List.mem_append_right _ (List.mem_singleton.2 rfl)
    have hfirst := (settled_segment o hpre hstop honce s).found_sublist fun t ht =>
      ht.resolve_right fun h => h.2 stop hmem hstop
    have hrest := ih (List.forall_mem_cons.1 hmore).2
    rw [segments_semicolon hpre hstop, faults_attempts_cons, List.map_append,
      show pre ++ stop :: more ++ [s.last] = pre ++ [stop] ++ (more ++ [s.last]) by simp]
    apply hfirst.append
    split
    · exact hrest
    · exact List.nil_sublist _

end Segments

/-- The tokens of `); x;`. -/
def misplaced : TokenStream :=
  let token (kind : Token.Kind) (lexeme : String) : Token :=
    ⟨kind, lexeme, ⟨"", 0, 0, 1, 1, 1, 1⟩, .null⟩
  ⟨[token .rparen ")", token .semicolon ";", token .ident "x", token .semicolon ";"],
    token .eof "", rfl⟩

end RuleLang.Grammar
