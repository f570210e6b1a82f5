/-
  TermMarkup.Text.CodeRange
  ─────────────────────────
  TABLES OF CODE POINTS: a character class is a list of inclusive ranges in
  increasing order, and one search answers both "is it in the class" and
  "where does its range begin".
-/
namespace TermMarkup

/-- Inclusive ranges of code points, in increasing order and without overlap. -/
abbrev CodeRanges := List (Nat × Nat)

/-- The start of the range that holds `n`.  The search ENDS at the first range above `n`. -/
def CodeRanges.start? : CodeRanges → Nat → Option Nat
  | [], _ => none
  | (low, high) :: rest, n =>
    if n < low then none
    else if n ≤ high then some low
    else CodeRanges.start? rest n

/-- Whether some range holds `n`. -/
def CodeRanges.contains (ranges : CodeRanges) (n : Nat) : Bool := (ranges.start? n).isSome

end TermMarkup
