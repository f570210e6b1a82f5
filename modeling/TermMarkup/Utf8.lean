/-
  TermMarkup.Utf8
  ───────────────
  READING UTF-8.  A sequence is well formed if its first byte announces its
  length and each later byte lies in the range that the bytes before it leave
  open; overlong forms, surrogates and values above U+10FFFF have none.  The
  first malformed sequence ends the reading, with its place and the reason.
-/
import TermMarkup.Text.Basic

namespace TermMarkup

/-- Bytes as numbers below 256. -/
abbrev Bytes := List Nat

namespace Utf8

/-! ## §1. What can be wrong. -/

/-- Why a byte sequence is no character. -/
inductive Reason where
  | badStart
  | badContinuation
  | cutShort
  deriving DecidableEq, Repr

/-- The first malformed sequence: its offset, its length, its first byte. -/
structure Fault where
  offset : Nat
  size : Nat
  firstByte : Nat
  reason : Reason
  deriving DecidableEq, Repr

/-! ## §2. The form of a sequence. -/

/-- How many bytes follow the first byte `b`, and the range of the SECOND byte. -/
def follow? (b : Nat) : Option (Nat × Nat × Nat) :=
  if b < 0x80 then some (0, 0, 0)
  else if b < 0xC2 then none
  else if b < 0xE0 then some (1, 0x80, 0xBF)
  else if b = 0xE0 then some (2, 0xA0, 0xBF)
  else if b = 0xED then some (2, 0x80, 0x9F)
  else if b < 0xF0 then some (2, 0x80, 0xBF)
  else if b = 0xF0 then some (3, 0x90, 0xBF)
  else if b < 0xF4 then some (3, 0x80, 0xBF)
  else if b = 0xF4 then some (3, 0x80, 0x8F)
  else none

/-- The value bits of a first byte that announces `count` more. -/
def startValue (b count : Nat) : Nat :=
  match count with
  | 0 => b
  | 1 => b % 0x20
  | 2 => b % 0x10
  | _ => b % 0x08

/-- Reads `count` continuation bytes, the next one between `low` and `high`, all later ones in the
full range.  A failure says how many bytes were good. -/
def continuation (value : Nat) :
    (count low high : Nat) → Bytes → Except (Nat × Reason) (Nat × Bytes)
  | 0, _, _, rest => .ok (value, rest)
  | _ + 1, _, _, [] => .error (0, .cutShort)
  | count + 1, low, high, b :: rest =>
    if low ≤ b ∧ b ≤ high then
      match continuation (value * 0x40 + b % 0x40) count 0x80 0xBF rest with
      | .ok done => .ok done
      | .error (good, reason) => .error (good + 1, reason)
    else .error (0, .badContinuation)

/-- Reads the character at the start of `b :: rest`, which lies at `offset`; gives it with the
number of its bytes and what follows. -/
def character (offset b : Nat) (rest : Bytes) : Except Fault (Char × Nat × Bytes) :=
  match follow? b with
  | none => .error ⟨offset, 1, b, .badStart⟩
  | some (count, low, high) =>
    match continuation (startValue b count) count low high rest with
    | .ok (value, rest) => .ok (Char.ofNat value, count + 1, rest)
    | .error (good, reason) => .error ⟨offset, good + 1, b, reason⟩

/-! ## §3. Reading a whole text. -/

/-- Reads the bytes from `offset` on; `fuel` bounds the number of characters. -/
def decodeFrom : (fuel offset : Nat) → Bytes → Except Fault Text
  | 0, _, _ => .ok []
  | _ + 1, _, [] => .ok []
  | fuel + 1, offset, b :: rest => do
    let (c, size, after) ← character offset b rest
    let cs ← decodeFrom fuel (offset + size) after
    return c :: cs

/-- The text that the bytes spell.  No text has more characters than bytes. -/
def decode (bytes : Bytes) : Except Fault Text := decodeFrom bytes.length 0 bytes

/-! ## §4. Writing. -/

/-- The bytes of one character. -/
def encodeChar (c : Char) : Bytes :=
  let n := c.toNat
  if n < 0x80 then [n]
  else if n < 0x800 then [0xC0 + n / 0x40, 0x80 + n % 0x40]
  else if n < 0x10000 then [0xE0 + n / 0x1000, 0x80 + n / 0x40 % 0x40, 0x80 + n % 0x40]
  else [0xF0 + n / 0x40000, 0x80 + n / 0x1000 % 0x40, 0x80 + n / 0x40 % 0x40, 0x80 + n % 0x40]

/-- The bytes of a text. -/
def encode (t : Text) : Bytes := t.flatMap encodeChar

end Utf8

end TermMarkup
