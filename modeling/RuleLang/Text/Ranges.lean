/-!
Sets of code points given as ascending, disjoint closed intervals.
-/
namespace RuleLang.Text

/-- Membership in one of the intervals; the search stops at the first interval that begins
beyond the code point. -/
def inRanges (n : Nat) : List (Nat × Nat) → Bool
  | [] => false
  | (first, last) :: rest => if n < first then false else n ≤ last || inRanges n rest

@[simp] theorem inRanges_nil (n : Nat) : inRanges n [] = false := rfl

/-- A member lies between the ends of one of the intervals. -/
theorem exists_of_inRanges {n : Nat} {ranges : List (Nat × Nat)} (h : inRanges n ranges = true) :
    ∃ r ∈ ranges, r.1 ≤ n ∧ n ≤ r.2 := by
  induction ranges with
  | nil => simp at h
  | cons r rest ih =>
    obtain ⟨first, last⟩ := r
    unfold inRanges at h
    split at h
    · simp at h
    · rcases Bool.or_eq_true_iff.1 h with h | h
      · exact ⟨_, List.mem_cons_self, by simp_all⟩
      · obtain ⟨s, hs, bounds⟩ := ih h
        exact ⟨s, List.mem_cons_of_mem _ hs, bounds⟩

end RuleLang.Text
