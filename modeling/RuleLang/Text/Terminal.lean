/-!
Escape sequences of terminals, which are left out where a text is not written to a terminal. A
sequence is an escape character and a bracket, any number of digits, semicolons and question marks,
and a letter.
-/
namespace RuleLang.Text

def isEscapeParameter (c : Char) : Bool := c = ';' || c = '?' || c.isDigit

/-- The number of characters of an escape sequence behind its escape character. -/
def escapeWidth? : List Char → Option Nat
  | '[' :: rest =>
    match rest.dropWhile isEscapeParameter with
    | c :: _ =>
      if c.isAlpha then some ((rest.takeWhile isEscapeParameter).length + 2) else none
    | [] => none
  | _ => none

/-- The text without its first `skip` characters and without escape sequences. -/
def stripFrom : (skip : Nat) → List Char → List Char
  | _, [] => []
  | skip + 1, _ :: rest => stripFrom skip rest
  | 0, c :: rest =>
    if c = '\x1b' then
      match escapeWidth? rest with
      | some width => stripFrom width rest
      | none => c :: stripFrom 0 rest
    else c :: stripFrom 0 rest

def stripEscapes (s : String) : String := String.ofList (stripFrom 0 s.toList)

/-- A text without escape characters stays as it is. -/
theorem stripFrom_of_not_mem {cs : List Char} (h : '\x1b' ∉ cs) : stripFrom 0 cs = cs := by
  induction cs with
  | nil => rfl
  | cons c rest ih =>
    have hc : c ≠ '\x1b' := fun e => h (by simp [e])
    simp [stripFrom, hc, ih fun m => h (List.mem_cons_of_mem _ m)]

end RuleLang.Text
