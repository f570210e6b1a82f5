/-
  TermMarkup.Proofs.Copies
  ────────────────────────
  HOW MANY COPIES OF A TEXT CAN BE MADE.  A machine word bounds their number on
  every machine, and memory on each by a number of its own.

    • `CopiesFit` — the numbers of copies that can be made,
    • `copies_eq_ok_iff`, `copies_eq_error_iff` — what comes of the others.
-/
import TermMarkup.Text.Copies

namespace TermMarkup.Text

/-- A machine word holds the number of copies, and memory has room for them. -/
def CopiesFit (room : Nat) (count : Int) : Prop :=
  (-wordLimit ≤ count ∧ count < wordLimit) ∧ count ≤ room

variable {room : Nat} {count : Int} {t u : Text} {fault : Fault}

/-- To make no copy needs no room. -/
theorem copiesFit_zero (room : Nat) : CopiesFit room 0 :=
  ⟨by decide, Int.natCast_nonneg room⟩

/-- **The numbers of copies that can be made**; a negative one makes none. -/
theorem copies_eq_ok_iff :
    copies room count t = .ok u ↔ CopiesFit room count ∧ u = repeated count.toNat t := by
  unfold copies CopiesFit
  by_cases hword : count < -wordLimit ∨ wordLimit ≤ count
  · rw [if_pos hword]
    simp only [reduceCtorEq, false_iff, not_and]
    omega
  · rw [if_neg hword]
    have hfit : -wordLimit ≤ count ∧ count < wordLimit := by omega
    by_cases hmemory : room < count
    · rw [if_pos hmemory]
      simp only [reduceCtorEq, false_iff, not_and]
      omega
    · rw [if_neg hmemory]
      simp only [hfit, Int.not_lt.mp hmemory, and_self, true_and, Except.ok.injEq]
      exact eq_comm

/-- A number that no machine word holds is refused first. -/
theorem copies_eq_error_iff :
    copies room count t = .error fault
      ↔ (count < -wordLimit ∨ wordLimit ≤ count) ∧ fault = .countTooLarge
        ∨ (room < count ∧ -wordLimit ≤ count ∧ count < wordLimit) ∧ fault = .outOfMemory := by
  unfold copies
  by_cases hword : count < -wordLimit ∨ wordLimit ≤ count
  · have hnot : ¬(room < count ∧ -wordLimit ≤ count ∧ count < wordLimit) := by omega
    rw [if_pos hword, Except.error.injEq]
    simp only [hword, hnot, true_and, false_and, or_false]
    exact eq_comm
  · rw [if_neg hword]
    by_cases hmemory : room < count
    · have hfit : room < count ∧ -wordLimit ≤ count ∧ count < wordLimit := by omega
      rw [if_pos hmemory, Except.error.injEq]
      simp only [hword, hfit, and_self, true_and, false_and, false_or]
      exact eq_comm
    · rw [if_neg hmemory]
      simp [hword, hmemory]

end TermMarkup.Text
