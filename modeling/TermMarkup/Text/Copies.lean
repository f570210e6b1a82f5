/-
  TermMarkup.Text.Copies
  ──────────────────────
  COPIES OF A TEXT, one after the other.  How many can be made depends on the
  machine: their number has to fit into a machine word, and memory has to have
  room for them.
-/
import TermMarkup.Fault

namespace TermMarkup.Text

/-- The bound of the signed 64-bit words. -/
def wordLimit : Int := 0x8000000000000000

/-- `count` copies of `t`, none if `count` is negative.  A count outside 64 bits has no machine
word; `room` is the number of copies that memory has room for. -/
def copies (room : Nat) (count : Int) (t : Text) : Except Fault Text :=
  if count < -wordLimit ∨ wordLimit ≤ count then .error .countTooLarge
  else if room < count then .error .outOfMemory
  else .ok (repeated count.toNat t)

end TermMarkup.Text
