/-
  TermMarkup.Text.Alike
  ─────────────────────
  WHICH NAMES ARE LIKE A MISSPELLED WORD.  Two texts share their longest common
  block and, on either side of it, what is shared there in turn; they are alike
  if what they share makes up three fifths of both taken together.

  `longestBlock_le` says that a block lies inside the first text, so the search
  on either side of it ends.
-/
import TermMarkup.Text.Basic

namespace TermMarkup.Text

/-! ## §1. Common blocks. -/

/-- The number of characters that two texts have in common at their start. -/
def commonStart : Text → Text → Nat
  | a :: as, b :: bs => if a = b then commonStart as bs + 1 else 0
  | _, _ => 0

/-- The place in the second text where the longest start of `s` stands, and its size; of equally
long ones the FIRST. -/
def longestStart (s : Text) : Text → Nat × Nat
  | [] => (0, 0)
  | b :: bs =>
    let here := commonStart s (b :: bs)
    let (place, size) := longestStart s bs
    if size ≤ here then (0, here) else (place + 1, size)

/-- A block that two texts share: its places in both, and its size. -/
structure Block where
  left : Nat
  right : Nat
  size : Nat
  deriving DecidableEq, Repr

/-- The longest common block of two texts; of equally long ones the first in the first text, then
the first in the second. -/
def longestBlock : Text → Text → Block
  | [], _ => ⟨0, 0, 0⟩
  | a :: as, t =>
    let (place, size) := longestStart (a :: as) t
    let later := longestBlock as t
    if later.size ≤ size then ⟨0, place, size⟩ else { later with left := later.left + 1 }

theorem commonStart_le (s t : Text) : commonStart s t ≤ s.length := by
  fun_induction commonStart s t <;> simp_all

theorem longestStart_le (s t : Text) : (longestStart s t).2 ≤ s.length := by
  induction t with
  | nil => simp [longestStart]
  | cons b bs ih =>
    have h := commonStart_le s (b :: bs)
    simp only [longestStart]
    split <;> assumption

theorem longestBlock_le (s t : Text) :
    (longestBlock s t).left + (longestBlock s t).size ≤ s.length := by
  induction s with
  | nil => simp [longestBlock]
  | cons a as ih =>
    have h := longestStart_le (a :: as) t
    simp only [longestBlock]
    split
    · simpa using h
    · simp only [List.length_cons]; omega

/-! ## §2. Likeness. -/

/-- The number of characters that two texts share. -/
def shared (s t : Text) : Nat :=
  match h : longestBlock s t with
  | ⟨_, _, 0⟩ => 0
  | ⟨left, right, size + 1⟩ =>
    size + 1 + shared (s.take left) (t.take right)
      + shared (s.drop (left + size + 1)) (t.drop (right + size + 1))
termination_by s.length
decreasing_by
  all_goals
    have inside := longestBlock_le s t
    simp only [h] at inside
    simp only [List.length_take, List.length_drop]
    omega

/-- Whether the shared characters, counted in both texts, are at least three fifths of all. -/
def isAlike (name word : Text) : Bool :=
  3 * (name.length + word.length) ≤ 10 * shared name word

/-- Whether `a` is at least as much like `word` as `b` is; of equals the later in order. -/
def isNearer (word a b : Text) : Bool :=
  let left := shared a word * (b.length + word.length)
  let right := shared b word * (a.length + word.length)
  right < left || (left == right && notAfter b a)

/-- The most names that are offered for a word. -/
def maxOffers : Nat := 3

/-- The names that are most like a word, in their order. -/
def alike (word : Text) (names : List Text) : List Text :=
  let near := (names.filter fun name => isAlike name word).mergeSort (isNearer word)
  (near.take maxOffers).mergeSort notAfter

end TermMarkup.Text
