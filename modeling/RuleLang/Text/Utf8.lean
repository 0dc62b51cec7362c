/-!
Decoding UTF-8. Each character has one encoding, its shortest, and surrogates have none; the first
byte that cannot go on an encoding decides the fault.
-/
namespace RuleLang.Text

inductive Utf8Fault where
  | startByte
  | continuationByte
  | endOfData
  deriving DecidableEq, Repr

def Utf8Fault.message : Utf8Fault → String
  | .startByte => "invalid start byte"
  | .continuationByte => "invalid continuation byte"
  | .endOfData => "unexpected end of data"

/-- The lower six bits of a byte that may follow, which has to lie between two others. -/
def continuation (low high : Nat) : List UInt8 → Except Utf8Fault (Nat × List UInt8)
  | [] => .error .endOfData
  | b :: rest =>
    if low ≤ b.toNat ∧ b.toNat ≤ high then .ok (b.toNat % 0x40, rest)
    else .error .continuationByte

/-- The range of the byte behind a first byte: it leaves out encodings that are too long, surrogates
and numbers beyond the last character. -/
def secondRange (first : Nat) : Nat × Nat :=
  if first = 0xE0 then (0xA0, 0xBF)
  else if first = 0xED then (0x80, 0x9F)
  else if first = 0xF0 then (0x90, 0xBF)
  else if first = 0xF4 then (0x80, 0x8F)
  else (0x80, 0xBF)

/-- The character at the beginning of the bytes, and what follows it. -/
def decodeChar (first : UInt8) (rest : List UInt8) : Except Utf8Fault (Char × List UInt8) := do
  let n := first.toNat
  let (low, high) := secondRange n
  if n < 0x80 then return (Char.ofNat n, rest)
  else if 0xC2 ≤ n ∧ n ≤ 0xDF then
    let (a, rest) ← continuation low high rest
    return (Char.ofNat (n % 0x20 * 0x40 + a), rest)
  else if 0xE0 ≤ n ∧ n ≤ 0xEF then
    let (a, rest) ← continuation low high rest
    let (b, rest) ← continuation 0x80 0xBF rest
    return (Char.ofNat ((n % 0x10 * 0x40 + a) * 0x40 + b), rest)
  else if 0xF0 ≤ n ∧ n ≤ 0xF4 then
    let (a, rest) ← continuation low high rest
    let (b, rest) ← continuation 0x80 0xBF rest
    let (c, rest) ← continuation 0x80 0xBF rest
    return (Char.ofNat (((n % 0x08 * 0x40 + a) * 0x40 + b) * 0x40 + c), rest)
  else throw .startByte

def decodeMany : (count : Nat) → List UInt8 → Except Utf8Fault (List Char)
  | 0, _ => .ok []
  | _, [] => .ok []
  | count + 1, b :: bytes => do
    let (c, rest) ← decodeChar b bytes
    return c :: (← decodeMany count rest)

/-- The text of bytes. Each character has at least one byte. -/
def decodeUtf8 (bytes : List UInt8) : Except Utf8Fault (List Char) :=
  decodeMany bytes.length bytes

/-- The text with each carriage return, alone or before a line feed, as a line feed. -/
def unifyNewlines : List Char → List Char
  | [] => []
  | '\r' :: '\n' :: rest => '\n' :: unifyNewlines rest
  | c :: rest => (if c = '\r' then '\n' else c) :: unifyNewlines rest

end RuleLang.Text
