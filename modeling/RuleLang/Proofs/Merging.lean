import RuleLang.Proofs.Token.Tiling

/-!
Merging spans. The two ends of a merged span are chosen apart from each other, each from one of the
two spans, so that spans may be merged in any grouping (`merge_assoc`). In one source text an offset
has one line and one column, so merging two of its spans gives the least stretch of the text that
holds both, in either order (`merge_join`).
-/
namespace RuleLang.Span

/-! ## The ends of a span -/

/-- Where a span begins: the offset, its line and its column. -/
def front (s : Span) : Int × Int × Int := (s.start, s.line, s.column)

/-- Where a span stops: the offset, its line and its column. -/
def back (s : Span) : Int × Int × Int := (s.stop, s.stopLine, s.stopColumn)

theorem eq_iff_ends {s t : Span} :
    s = t ↔ s.file = t.file ∧ s.front = t.front ∧ s.back = t.back := by
  constructor
  · rintro rfl
    exact ⟨rfl, rfl, rfl⟩
  · rintro ⟨hfile, hfront, hback⟩
    cases s
    cases t
    cases hfile
    cases hfront
    cases hback
    rfl

variable (s t u : Span)

theorem front_merge : (s.merge t).front = if s.start ≤ t.start then s.front else t.front := by
  simp only [merge, front]
  split <;> rfl

theorem back_merge : (s.merge t).back = if t.stop ≤ s.stop then s.back else t.back := by
  simp only [merge, back]
  split <;> rfl

theorem start_merge : (s.merge t).start = min s.start t.start := by
  simp only [merge]
  split <;> omega

theorem stop_merge : (s.merge t).stop = max s.stop t.stop := by
  simp only [merge]
  split <;> omega

/-- Of three spans the one with the least start gives the front, and of several such ones the first;
likewise for the back with the greatest stop. -/
theorem merge_assoc : (s.merge t).merge u = s.merge (t.merge u) := by
  refine eq_iff_ends.2 ⟨rfl, ?_, ?_⟩
  · simp only [front_merge, start_merge]
    by_cases hst : s.start ≤ t.start
    · by_cases hsu : s.start ≤ u.start
      · rw [if_pos (by omega), if_pos hst, if_pos (by omega)]
      · rw [if_neg (by omega), if_neg (by omega), if_neg (by omega)]
    · have hmin : ¬s.start ≤ min t.start u.start := by omega
      rw [if_neg hst, if_neg hmin, Int.min_eq_right (by omega)]
  · simp only [back_merge, stop_merge]
    by_cases hts : t.stop ≤ s.stop
    · by_cases hus : u.stop ≤ s.stop
      · rw [if_pos (by omega), if_pos hts, if_pos (by omega)]
      · rw [if_neg (by omega), if_neg (by omega), if_neg (by omega)]
    · have hmax : ¬max t.stop u.stop ≤ s.stop := by omega
      rw [if_neg hts, if_neg hmax, Int.max_eq_right (by omega)]

/-! ## Stretches of one text -/

/-- The span is that of a stretch of a text, with the lines and columns of its offsets. -/
def IsStretch (file : String) (text : List Char) (s : Span) : Prop :=
  ∃ i j, i ≤ j ∧ j ≤ text.length ∧ s = .stretch file text i j

/-- All characters of the first span belong to the second one. -/
structure Within (s t : Span) : Prop where
  file : s.file = t.file
  start : t.start ≤ s.start
  stop : s.stop ≤ t.stop

/-- Merging two stretches takes the lesser of the two starts and the greater of the two stops. -/
theorem merge_stretch (file : String) (text : List Char) (i j k l : Nat) :
    (stretch file text i j).merge (stretch file text k l) =
      stretch file text (min i k) (max j l) := by
  have hstart : (stretch file text i j).start ≤ (stretch file text k l).start ↔ i ≤ k :=
    Int.ofNat_le
  have hstop : (stretch file text k l).stop ≤ (stretch file text i j).stop ↔ l ≤ j :=
    Int.ofNat_le
  refine eq_iff_ends.2 ⟨rfl, ?_, ?_⟩
  · simp only [front_merge, hstart]
    split
    · rw [Nat.min_eq_left ‹_›]
      rfl
    · rw [Nat.min_eq_right (by omega)]
      rfl
  · simp only [back_merge, hstop]
    split
    · rw [Nat.max_eq_left ‹_›]
      rfl
    · rw [Nat.max_eq_right (by omega)]
      rfl

section Stretches

variable {file : String} {text : List Char} {s t : Span}

theorem IsStretch.merge (hs : s.IsStretch file text) (ht : t.IsStretch file text) :
    (s.merge t).IsStretch file text := by
  obtain ⟨i, j, hij, hj, rfl⟩ := hs
  obtain ⟨k, l, hkl, hl, rfl⟩ := ht
  exact ⟨min i k, max j l, by omega, by omega, merge_stretch file text i j k l⟩

theorem IsStretch.merge_comm (hs : s.IsStretch file text) (ht : t.IsStretch file text) :
    s.merge t = t.merge s := by
  obtain ⟨i, j, -, -, rfl⟩ := hs
  obtain ⟨k, l, -, -, rfl⟩ := ht
  rw [merge_stretch, merge_stretch, Nat.min_comm, Nat.max_comm]

end Stretches

theorem within_merge_left : s.Within (s.merge t) where
  file := rfl
  start := by rw [start_merge]; exact Int.min_le_left _ _
  stop := by rw [stop_merge]; exact Int.le_max_left _ _

theorem within_merge_right (hfile : s.file = t.file) : t.Within (s.merge t) where
  file := hfile.symm
  start := by rw [start_merge]; exact Int.min_le_right _ _
  stop := by rw [stop_merge]; exact Int.le_max_right _ _

variable {s t u} in
theorem Within.merge (hs : s.Within u) (ht : t.Within u) : (s.merge t).Within u where
  file := hs.file
  start := by rw [start_merge]; exact Int.le_min.2 ⟨hs.start, ht.start⟩
  stop := by rw [stop_merge]; exact Int.max_le.2 ⟨hs.stop, ht.stop⟩

/-- Merging is a join. Of any spans, merging a span with itself changes nothing, the grouping does
not matter, and the ends of the result are the lesser start and the greater stop. Of two spans of
one source text, the order does not matter either, and the result is the least span of the text that
holds both. -/
theorem merge_join (file : String) (text : List Char) :
    (∀ s : Span, s.merge s = s) ∧
    (∀ s t u : Span, (s.merge t).merge u = s.merge (t.merge u)) ∧
    (∀ s t : Span, (s.merge t).start = min s.start t.start ∧
      (s.merge t).stop = max s.stop t.stop) ∧
    ∀ s t : Span, s.IsStretch file text → t.IsStretch file text →
      s.merge t = t.merge s ∧ (s.merge t).IsStretch file text ∧
      s.Within (s.merge t) ∧ t.Within (s.merge t) ∧
      ∀ u : Span, s.Within u → t.Within u → (s.merge t).Within u := by
  refine ⟨merge_self, merge_assoc, fun s t => ⟨start_merge s t, stop_merge s t⟩, ?_⟩
  intro s t hs ht
  have hfile : s.file = t.file := by
    obtain ⟨_, _, -, -, rfl⟩ := hs
    obtain ⟨_, _, -, -, rfl⟩ := ht
    rfl
  exact ⟨hs.merge_comm ht, hs.merge ht, within_merge_left s t, within_merge_right s t hfile,
    fun u hsu htu => hsu.merge htu⟩

/-- The letters on two lines, merged from either side. -/
theorem merge_join_lines :
    let a : Span := ⟨"rule", 0, 1, 1, 1, 1, 2⟩
    let b : Span := ⟨"rule", 2, 3, 2, 1, 2, 2⟩
    a.IsStretch "rule" ['a', '\n', 'b'] ∧ b.IsStretch "rule" ['a', '\n', 'b'] ∧
      b.merge a = ⟨"rule", 0, 3, 1, 1, 2, 2⟩ ∧ a.merge b = b.merge a := by
  intro a b
  have ha : a.IsStretch "rule" ['a', '\n', 'b'] := ⟨0, 1, by decide, by decide, by decide⟩
  have hb : b.IsStretch "rule" ['a', '\n', 'b'] := ⟨2, 3, by decide, by decide, by decide⟩
  exact ⟨ha, hb, by decide, ((merge_join "rule" ['a', '\n', 'b']).2.2.2 a b ha hb).1⟩

/-- Where one offset has several columns, the order matters: the first span gives the column. -/
example :
    let a : Span := ⟨"rule", 0, 1, 1, 1, 1, 2⟩
    let b : Span := ⟨"rule", 0, 1, 1, 9, 1, 2⟩
    a.merge b = a ∧ b.merge a = b ∧ a ≠ b := by
  decide

end RuleLang.Span
