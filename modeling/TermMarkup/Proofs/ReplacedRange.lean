/-
  TermMarkup.Proofs.ReplacedRange
  ───────────────────────────────
  HOW MANY COPIES FILL A RANGE.  A replacement of one character is repeated as
  often as the indices of the range are apart, as they are given.  The range
  itself lies between the offsets that the indices denote, and these are cut off
  at the ends of the text; so the copies fill the range exactly only if the
  indices count from the same end and the range lies inside the text, or if
  nothing lies between them.

    • `Counted` — the indices are as far apart as their range is long;
      `counted_iff` says so by the offsets,
    • `replaceRange_char_iff` — what comes of a replacement of one character, and
      when it fills the range,
    • `replaceRange_overfills` — a range that reaches behind the text is not
      filled exactly.
-/
import TermMarkup.Proofs.Copies
import TermMarkup.Proofs.Outcome
import TermMarkup.Text.Slice

namespace TermMarkup.Text

/-! ## §1. The range between two indices. -/

/-- The characters from the index `start` up to the index `stop`. -/
def between (t : Text) (start stop : Int) : Text :=
  (t.upTo stop).drop (offsetOf t.length start)

theorem offsetOf_le (size : Nat) (index : Int) : offsetOf size index ≤ size := by
  unfold offsetOf
  split <;> omega

theorem length_between (t : Text) (start stop : Int) :
    (t.between start stop).length = offsetOf t.length stop - offsetOf t.length start := by
  have hstop := offsetOf_le t.length stop
  unfold between upTo
  rw [List.length_drop, List.length_take]
  omega

/-- In a text of `size` characters the two indices are as far apart as the characters between them
are many: both count from the start and do not reach behind the text, both count from the end and do
not reach before it, or there is nothing between them. -/
def Counted (size : Nat) (start stop : Int) : Prop :=
  (0 ≤ start ∧ 0 ≤ stop ∧ (stop ≤ start ∨ stop ≤ size))
    ∨ (start < 0 ∧ stop < 0 ∧ (stop ≤ start ∨ -size ≤ start))
    ∨ (0 ≤ start ∧ stop < 0 ∧ size + stop ≤ start)

/-- **The distance of the indices is that of their offsets** in these cases only: an index from the
start and one from the end are compared as if they counted from the same end. -/
theorem counted_iff {size : Nat} {start stop : Int} :
    Counted size start stop
      ↔ (stop - start).toNat = offsetOf size stop - offsetOf size start := by
  unfold Counted offsetOf
  by_cases hstart : start < 0
  · by_cases hstop : stop < 0
    · -- both from the end: the offsets are cut off before the text
      simp only [if_pos hstart, if_pos hstop]
      omega
    · -- from the end up to one from the start: the distance is more than the text holds
      simp only [if_pos hstart, if_neg hstop]
      omega
  · by_cases hstop : stop < 0
    · -- from the start up to one from the end: the distance is negative
      simp only [if_neg hstart, if_pos hstop]
      omega
    · -- both from the start: the offsets are cut off behind the text
      simp only [if_neg hstart, if_neg hstop]
      omega

/-! ## §2. Replacements. -/

/-- A replacement of one character stands between the two kept parts, repeated. -/
theorem replaceRange_char (room : Nat) (t : Text) (start stop : Int) (c : Char) :
    replaceRange room t start stop [c] = (copies room (stop - start) [c]).map
      fun filling => t.upTo start ++ filling ++ t.onward stop := by
  unfold replaceRange
  rw [List.length_singleton, if_pos rfl]
  cases copies room (stop - start) [c] <;> rfl

/-- Between the same two parts there is the same text. -/
theorem append_between_inj {front back u v : Text} :
    front ++ u ++ back = front ++ v ++ back ↔ u = v := by
  rw [List.append_left_inj, List.append_right_inj]

/-- **What a replacement of one character comes to**, whatever memory has room for.  It is refused if
a machine word does not hold the number of copies, or memory has no room for them; else the copies
stand between what comes before the one index and what comes from the other one on.  They fill the
replaced range exactly if and only if they can be made and the indices are as far apart as the range
is long. -/
theorem replaceRange_char_iff (room : Nat) (t : Text) (start stop : Int) (c : Char) :
    (∀ out, replaceRange room t start stop [c] = .ok out ↔ CopiesFit room (stop - start)
        ∧ out = t.upTo start ++ List.replicate (stop - start).toNat c ++ t.onward stop)
      ∧ (∀ fault, replaceRange room t start stop [c] = .error fault
        ↔ (stop - start < -wordLimit ∨ wordLimit ≤ stop - start) ∧ fault = .countTooLarge
          ∨ (room < stop - start ∧ -wordLimit ≤ stop - start ∧ stop - start < wordLimit)
            ∧ fault = .outOfMemory)
      ∧ (replaceRange room t start stop [c] = .ok (t.upTo start
            ++ List.replicate (t.between start stop).length c ++ t.onward stop)
        ↔ CopiesFit room (stop - start) ∧ Counted t.length start stop) := by
  have hok : ∀ out, replaceRange room t start stop [c] = .ok out ↔ CopiesFit room (stop - start)
      ∧ out = t.upTo start ++ List.replicate (stop - start).toNat c ++ t.onward stop := by
    intro out
    rw [replaceRange_char]
    cases hcopies : copies room (stop - start) [c] with
    | error fault =>
      have hnot : ¬CopiesFit room (stop - start) := by
        intro hfit
        rw [copies_eq_ok_iff.mpr ⟨hfit, rfl⟩] at hcopies
        simp at hcopies
      simp [Except.map, hnot]
    | ok filling =>
      obtain ⟨hfit, hfilling⟩ := copies_eq_ok_iff.mp hcopies
      rw [repeated_singleton] at hfilling
      simp only [Except.map, Except.ok.injEq, hfit, hfilling, true_and]
      exact eq_comm
  refine ⟨hok, fun fault => ?_, ?_⟩
  · rw [replaceRange_char]
    exact map_eq_error.trans copies_eq_error_iff
  · -- the two fillings are copies of one character, so their numbers decide
    rw [hok, append_between_inj, counted_iff, ← length_between, List.replicate_inj]
    simp [eq_comm]

/-- A range that reaches behind the text gets more copies than it has characters. -/
theorem replaceRange_overfills :
    replaceRange 1000 "abc".toList 0 5 [','] = .ok ",,,,,".toList
      ∧ upTo "abc".toList 0 ++ List.replicate (between "abc".toList 0 5).length ','
          ++ onward "abc".toList 5 = ",,,".toList :=
  ⟨rfl, by decide⟩

end TermMarkup.Text
