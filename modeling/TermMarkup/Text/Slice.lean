/-
  TermMarkup.Text.Slice
  ─────────────────────
  REPLACING A RANGE of a text.  Indices count from the start, or from the end
  if they are negative, and are cut off at the ends of the text.
-/
import TermMarkup.Text.Copies

namespace TermMarkup.Text

/-- The offset that an index denotes in a text of `size` characters. -/
def offsetOf (size : Nat) (index : Int) : Nat :=
  if index < 0 then (size + index).toNat else min size index.toNat

/-- The text before an index. -/
def upTo (t : Text) (index : Int) : Text := t.take (offsetOf t.length index)

/-- The text from an index on. -/
def onward (t : Text) (index : Int) : Text := t.drop (offsetOf t.length index)

/-- Puts `replacement` in place of the characters from `start` to `stop`.  A replacement of ONE
character is first repeated `stop - start` times, whatever the text's length, if memory has `room`
for so many copies. -/
def replaceRange (room : Nat) (t : Text) (start stop : Int) (replacement : Text) :
    Except Fault Text := do
  let filling ← if replacement.length = 1 then copies room (stop - start) replacement
    else .ok replacement
  return t.upTo start ++ filling ++ t.onward stop

end TermMarkup.Text
