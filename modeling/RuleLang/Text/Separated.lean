/-!
Texts whose parts are separated by a character. The parts and the separators between them make up
the text (`intercalate_separated`), so that no character is lost, and no part holds a separator.
-/
namespace RuleLang.Text

/-- The parts of a text in front of, between and behind its separators; at least one. -/
def separated (separator : Char) : List Char → List (List Char)
  | [] => [[]]
  | c :: rest =>
    if c = separator then [] :: separated separator rest
    else
      match separated separator rest with
      | [] => [[c]]
      | part :: parts => (c :: part) :: parts

@[simp] theorem separated_nil (separator : Char) : separated separator [] = [[]] := rfl

theorem separated_ne_nil (separator : Char) (cs : List Char) : separated separator cs ≠ [] := by
  cases cs with
  | nil => simp
  | cons c rest =>
    unfold separated
    split
    · simp
    · split <;> simp

/-- Put together again, the parts make up the text. -/
theorem intercalate_separated (separator : Char) (cs : List Char) :
    [separator].intercalate (separated separator cs) = cs := by
  induction cs with
  | nil => rfl
  | cons c rest ih =>
    unfold separated
    split
    · rename_i h
      subst h
      obtain ⟨part, parts, e⟩ := List.exists_cons_of_ne_nil (separated_ne_nil c rest)
      rw [e] at ih ⊢
      simp [← ih]
    · split
      · rename_i e
        exact absurd e (separated_ne_nil separator rest)
      · rename_i part parts e
        rw [e] at ih
        cases parts <;> simp_all

end RuleLang.Text
