import RuleLang.Position

/-!
Half-open ranges of a source text. The main operation, `merge`, gives the range from the earlier
start to the later stop of two spans.
-/
namespace RuleLang

/-- The characters from offset `start` up to, not including, offset `stop` of a file, with the line
and column of both ends. Spans may also come from elsewhere, so the fields are any integers. -/
structure Span where
  file : String
  start : Int
  stop : Int
  line : Int
  column : Int
  stopLine : Int
  stopColumn : Int
  deriving DecidableEq

namespace Span

def between (file : String) (p q : Position) : Span :=
  ⟨file, p.offset, q.offset, p.line, p.column, q.line, q.column⟩

def location (s : Span) : String :=
  s.file ++ ":" ++ toString s.line ++ ":" ++ toString s.column

/-- The span from the earlier of the two starts to the later of the two stops, in the file of the
first span. Where both begin or end together, the first span gives the line and column. -/
def merge (s t : Span) : Span :=
  let first := if s.start ≤ t.start then s else t
  let last := if t.stop ≤ s.stop then s else t
  ⟨s.file, first.start, last.stop, first.line, first.column, last.stopLine, last.stopColumn⟩

@[simp] theorem merge_file (s t : Span) : (s.merge t).file = s.file := rfl

@[simp] theorem merge_self (s : Span) : s.merge s = s := by
  simp [merge]

inductive LengthError where
  | negative
  /-- The length is `2 ^ 63` or more. -/
  | tooLong
  deriving DecidableEq, Repr

def LengthError.message : LengthError → String
  | .negative => "__len__() should return >= 0"
  | .tooLong => "cannot fit 'int' into an index-sized integer"

/-- The number of characters, which has to be a signed 64-bit word. -/
def length (s : Span) : Except LengthError Nat :=
  if s.stop < s.start then .error .negative
  else if 0x8000000000000000 ≤ s.stop - s.start then .error .tooLong
  else .ok (s.stop - s.start).toNat

def isEmpty (s : Span) : Except LengthError Bool :=
  match s.length with
  | .ok n => .ok (n = 0)
  | .error e => .error e

end Span

end RuleLang
