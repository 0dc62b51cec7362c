import RuleLang.Diagnostic
import RuleLang.Token.Word
import RuleLang.TokenStream

/-!
Cutting a source text into words and the gaps between them, and placing the words. The cuts lose no
character (`texts_ofSource`), so the place of each word is the place behind all that precedes it.
-/
namespace RuleLang

/-- A part of a source text: a gap, which holds blanks or a comment, or a word. -/
inductive Chunk where
  | gap (text : List Char)
  | word (w : Word)
  deriving DecidableEq

namespace Chunk

def text : Chunk → List Char
  | .gap cs => cs
  | .word w => w.lexeme

/-- The characters that separate words. -/
def isSpace (c : Char) : Bool := c = ' ' || c = '\t' || c = '\r' || c = '\n'

def startsComment (c : Char) (rest : List Char) : Bool := c = '/' && rest.head? = some '/'

/-- The first part of a text that begins with the given character, and what follows it. A comment
ends in front of the next line feed. -/
def read (c : Char) (rest : List Char) : Chunk × List Char :=
  if isSpace c then (.gap [c], rest)
  else if startsComment c rest then
    (.gap (c :: rest.takeWhile (· ≠ '\n')), rest.dropWhile (· ≠ '\n'))
  else
    let (w, rest) := Word.read c rest
    (.word w, rest)

/-- Reading loses no character. -/
theorem read_append (c : Char) (rest : List Char) :
    (read c rest).1.text ++ (read c rest).2 = c :: rest := by
  unfold read
  split
  · rfl
  · split
    · simp [text, List.takeWhile_append_dropWhile]
    · exact Word.read_append c rest

theorem text_read_ne_nil (c : Char) (rest : List Char) : (read c rest).1.text ≠ [] := by
  unfold read
  split
  · simp [text]
  · split
    · simp [text]
    · exact Word.lexeme_read_ne_nil c rest

/-- What follows a part is shorter than the text that was read. -/
theorem length_read_lt (c : Char) (rest : List Char) :
    (read c rest).2.length < (c :: rest).length := by
  have h := congrArg List.length (read_append c rest)
  have := List.length_pos_iff.2 (text_read_ne_nil c rest)
  simp only [List.length_append] at h
  omega

def ofSource (cs : List Char) : List Chunk :=
  match cs with
  | [] => []
  | c :: rest => (read c rest).1 :: ofSource (read c rest).2
termination_by cs.length
decreasing_by exact length_read_lt c rest

@[simp] theorem ofSource_nil : ofSource [] = [] := by rw [ofSource]

theorem ofSource_cons (c : Char) (rest : List Char) :
    ofSource (c :: rest) = (read c rest).1 :: ofSource (read c rest).2 := by rw [ofSource]

/-- The parts of a text make up the text. -/
theorem texts_ofSource (cs : List Char) : (ofSource cs).flatMap text = cs := by
  fun_induction ofSource cs with
  | case1 => rfl
  | case2 c rest ih => rw [List.flatMap_cons, ih, read_append]

/-- The words among the parts of a text that begins at a place, each with its own place. -/
def placed (p : Position) : List Chunk → List (Position × Word)
  | [] => []
  | .gap cs :: chunks => placed (p.after cs) chunks
  | .word w :: chunks => (p, w) :: placed (p.after w.lexeme) chunks

end Chunk

namespace Word

def toToken (file : String) (p : Position) (w : Word) : Token :=
  ⟨w.kind, String.ofList w.lexeme, .between file p (p.after w.lexeme), w.value⟩

def flawSpan (file : String) (p : Position) (w : Word) (f : Flaw) : Span :=
  .between file (p.after (w.lexeme.take f.skip)) (p.after (w.lexeme.take (f.skip + f.width)))

def diagnostics (file : String) (p : Position) (w : Word) : List Diagnostic :=
  w.flaws.map fun f => .error f.fault.message (some (w.flawSpan file p f)) none

end Word

/-- The end of a file as a token: it has no characters. -/
def Token.endOf (file : String) (p : Position) : Token :=
  ⟨.eof, "", .between file p p, .null⟩

/-- The tokens of a source text and what there is to report about them. -/
structure Lexed where
  stream : TokenStream
  diagnostics : List Diagnostic
  deriving DecidableEq

def Lexed.tokens (l : Lexed) : List Token := l.stream.toList

def lex (source : String) (file : String) : Lexed :=
  let text := source.toList
  let words := Chunk.placed .start (Chunk.ofSource text)
  { stream :=
      { ahead := words.map fun (p, w) => w.toToken file p
        last := .endOf file (Position.start.after text)
        last_eof := rfl }
    diagnostics := words.flatMap fun (p, w) => w.diagnostics file p }

end RuleLang
