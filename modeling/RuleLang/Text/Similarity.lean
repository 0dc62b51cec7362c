/-!
How alike two texts are. The longest part that both have in common is counted, and so is what the
texts before it and the texts behind it share in the same way.
-/
namespace RuleLang.Text

def commonPrefix : List Char → List Char → Nat
  | a :: as, b :: bs => if a = b then commonPrefix as bs + 1 else 0
  | _, _ => 0

theorem commonPrefix_le_length (as bs : List Char) : commonPrefix as bs ≤ as.length := by
  fun_induction commonPrefix as bs <;> simp_all

/-- A part that two texts have in common: where it begins in each of them, and its length. -/
structure CommonPart where
  left : Nat
  right : Nat
  size : Nat
  deriving DecidableEq, Repr

/-- The common parts by their places in the first text, and then by those in the second. -/
def commonParts (as bs : List Char) : List CommonPart :=
  (List.range as.length).flatMap fun i =>
    (List.range bs.length).map fun j => ⟨i, j, commonPrefix (as.drop i) (bs.drop j)⟩

theorem left_add_size_le {as bs : List Char} {p : CommonPart} (h : p ∈ commonParts as bs) :
    p.left + p.size ≤ as.length := by
  obtain ⟨i, hi, h⟩ := List.mem_flatMap.1 h
  obtain ⟨j, -, rfl⟩ := List.mem_map.1 h
  have := commonPrefix_le_length (as.drop i) (bs.drop j)
  have := List.mem_range.1 hi
  simp only [List.length_drop] at *
  omega

/-- The longer of two parts, and of equally long ones the first. -/
def CommonPart.longer (p q : CommonPart) : CommonPart := if p.size < q.size then q else p

/-- The first of the longest common parts, or an empty one. -/
def longestPart (as bs : List Char) : CommonPart :=
  (commonParts as bs).foldl CommonPart.longer ⟨0, 0, 0⟩

theorem mem_of_foldl_longer (ps : List CommonPart) (p : CommonPart) :
    ps.foldl CommonPart.longer p = p ∨ ps.foldl CommonPart.longer p ∈ ps := by
  induction ps generalizing p with
  | nil => simp
  | cons q ps ih =>
    rcases ih (p.longer q) with h | h
    · rw [List.foldl_cons, h]
      unfold CommonPart.longer
      split <;> simp
    · exact .inr (List.mem_cons_of_mem _ h)

theorem longestPart_bound (as bs : List Char) :
    (longestPart as bs).left + (longestPart as bs).size ≤ as.length := by
  rcases mem_of_foldl_longer (commonParts as bs) ⟨0, 0, 0⟩ with h | h
  · simp [longestPart, h]
  · exact left_add_size_le h

def shared (as bs : List Char) : Nat :=
  let p := longestPart as bs
  if p.size = 0 then 0
  else
    shared (as.take p.left) (bs.take p.right) + p.size +
      shared (as.drop (p.left + p.size)) (bs.drop (p.right + p.size))
termination_by as.length
decreasing_by
  all_goals
    have := longestPart_bound as bs
    have : (longestPart as bs).size ≠ 0 := by assumption
    simp only [List.length_take, List.length_drop]
    omega

end RuleLang.Text
