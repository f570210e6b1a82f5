/-
  TermMarkup.Number.Hexadecimal
  ─────────────────────────────
  HEXADECIMAL DIGITS: their values, the number that a run of them writes, and
  the digits of a number.
-/
import TermMarkup.Text.Basic

namespace TermMarkup.Hexadecimal

/-- The value of a hexadecimal digit, in either case. -/
def value? (c : Char) : Option Nat :=
  if '0' ≤ c ∧ c ≤ '9' then some (c.toNat - '0'.toNat)
  else if 'a' ≤ c ∧ c ≤ 'f' then some (c.toNat - 'a'.toNat + 10)
  else if 'A' ≤ c ∧ c ≤ 'F' then some (c.toNat - 'A'.toNat + 10)
  else none

/-- A hexadecimal digit. -/
def isDigit (c : Char) : Bool := (value? c).isSome

/-- The number that hexadecimal digits write; other characters do not count. -/
def read (digits : Text) : Nat := (digits.filterMap value?).foldl (fun n d => 16 * n + d) 0

/-- `n` in lower-case digits, filled up with zeros to `size` digits. -/
def write (size n : Nat) : Text :=
  let digits := Nat.toDigits 16 n
  List.replicate (size - digits.length) '0' ++ digits

end TermMarkup.Hexadecimal
