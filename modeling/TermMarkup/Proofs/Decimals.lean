/-
  TermMarkup.Proofs.Decimals
  ──────────────────────────
  RUNS OF DECIMAL DIGITS, of one script or several.  A decimal digit is no blank,
  no sign and no underscore, so a run of digits is all number to the reader of
  integers, which refuses it only for its length; and the number read is that of
  the digits by their places.

    • `CodeRanges.contains_of_apart` — tables with nothing in common,
    • `Text.number` — the number that digits write,
    • `read_decimals` — a run of digits is read unless it is too long.
-/
import TermMarkup.Number.Integer
import TermMarkup.Proofs.Fields
import Mathlib.Data.List.TakeWhile
import Mathlib.Data.Nat.Digits.Defs

namespace TermMarkup

/-! ## §1. Digits among characters. -/

/-- A code point of a table is in one of its ranges. -/
theorem CodeRanges.exists_of_contains {ranges : CodeRanges} {n : Nat}
    (h : ranges.contains n = true) : ∃ range ∈ ranges, range.1 ≤ n ∧ n ≤ range.2 := by
  unfold contains at h
  induction ranges with
  | nil => exact nomatch h
  | cons range ranges ih =>
    obtain ⟨low, high⟩ := range
    unfold start? at h
    split at h
    · exact nomatch h
    · next hlow =>
      split at h
      · next hhigh => exact ⟨(low, high), List.mem_cons_self, Nat.not_lt.mp hlow, hhigh⟩
      · obtain ⟨range, hrange, hin⟩ := ih h
        exact ⟨range, List.mem_cons_of_mem _ hrange, hin⟩

/-- **Tables of which no two ranges meet** have no code point in common. -/
theorem CodeRanges.contains_of_apart {ranges others : CodeRanges} {n : Nat}
    (hapart : ∀ range ∈ ranges, ∀ other ∈ others, range.2 < other.1 ∨ other.2 < range.1)
    (h : ranges.contains n = true) : others.contains n = false := by
  rw [Bool.eq_false_iff]
  intro hother
  obtain ⟨range, hrange, hlow, hhigh⟩ := exists_of_contains h
  obtain ⟨other, hmem, hlow', hhigh'⟩ := exists_of_contains hother
  rcases hapart range hrange other hmem with hlt | hlt <;> omega

theorem isDecimal_eq (c : Char) : isDecimal c = decimalRanges.contains c.toNat :=
  Option.isSome_map

/-- A decimal digit is no blank. -/
theorem not_isBlank_of_isDecimal {c : Char} (h : isDecimal c = true) : isBlank c = false := by
  rw [isDecimal_eq] at h
  exact CodeRanges.contains_of_apart (by decide +kernel) h

/-- A table without the small letters holds none. -/
theorem not_isLower_of_contains {ranges : CodeRanges} {c : Char}
    (hapart : ∀ range ∈ ranges, range.2 < 97 ∨ 122 < range.1)
    (h : ranges.contains c.toNat = true) : c.isLower = false := by
  rw [Bool.eq_false_iff]
  intro hlower
  have hrange : 97 ≤ c.toNat ∧ c.toNat ≤ 122 :=
    (Bool.and_eq_true_iff.mp hlower).imp of_decide_eq_true of_decide_eq_true
  obtain ⟨range, hmem, hlow, hhigh⟩ := CodeRanges.exists_of_contains h
  rcases hapart range hmem with hlt | hlt <;> omega

/-- What looks like a digit is no small letter. -/
theorem not_isLower_of_isDigitLike {c : Char} (h : isDigitLike c = true) : c.isLower = false := by
  rcases Bool.or_eq_true_iff.mp h with h | h
  · rw [isDecimal_eq] at h
    exact not_isLower_of_contains (by decide +kernel) h
  · exact not_isLower_of_contains (by decide +kernel) h

/-- The ASCII digits are decimal. -/
theorem isDecimal_of_isDigit {c : Char} (h : c.isDigit = true) : isDecimal c = true := by
  have hrange : 48 ≤ c.toNat ∧ c.toNat ≤ 57 := Char.isDigit_iff_toNat.mp h
  rw [isDecimal_eq]
  unfold decimalRanges CodeRanges.contains CodeRanges.start?
  rw [if_neg (Nat.not_lt.mpr hrange.1), if_pos hrange.2]
  rfl

/-! ## §2. Reading. -/

/-- A text of characters that look like digits has no sign. -/
theorem unsigned_of_digitLike {t : Text} (h : ∀ c ∈ t, isDigitLike c = true) :
    Integer.unsigned t = (false, t) := by
  unfold Integer.unsigned
  split
  · exact absurd (h '-' List.mem_cons_self) (by decide)
  · exact absurd (h '+' List.mem_cons_self) (by decide)
  · rfl

namespace Text

/-- The text is all decimal digits. -/
def IsDecimal (t : Text) : Prop := ∀ c ∈ t, isDecimal c = true

/-- The number that decimal digits write: the last one counts ones, the one before it tens. -/
def number (digits : Text) : Nat := Nat.ofDigits 10 (digits.filterMap decimalValue?).reverse

end Text

theorem ofDigits_values (p : Text) : Integer.ofDigits (p.filterMap decimalValue?) = p.number := by
  unfold Integer.ofDigits Text.number
  rw [Nat.ofDigits_eq_foldr, List.foldr_reverse]
  exact congrArg (fun f => List.foldl f 0 _) (funext fun n => funext fun d => Nat.add_comm _ _)

variable {p : Text} (hp : p.IsDecimal)
include hp

theorem Text.IsDecimal.digitLike : ∀ c ∈ p, isDigitLike c = true :=
  fun c hc => Bool.or_eq_true_iff.mpr (.inl (hp c hc))

theorem Text.IsDecimal.notMem {c : Char} (hc : isDecimal c = false) : c ∉ p :=
  fun hmem => nomatch hc.symm.trans (hp c hmem)

/-- Digits are values, one for each. -/
theorem length_values : (p.filterMap decimalValue?).length = p.length := by
  induction p with
  | nil => rfl
  | cons c p ih =>
    obtain ⟨n, hn⟩ := Option.isSome_iff_exists.mp (hp c List.mem_cons_self)
    rw [List.filterMap_cons_some hn, List.length_cons, List.length_cons,
      ih fun d hd => hp d (List.mem_cons_of_mem _ hd)]

/-- A run of digits has no underscores, so it is one group. -/
theorem wellSpaced_decimals (hne : p ≠ []) : Integer.wellSpaced p = true := by
  have hfields : Text.fields '_' p = [p] := by
    refine Text.fieldsBy_of_none fun c hc => ?_
    have hne : c ≠ '_' := by
      rintro rfl
      exact hp.notMem (by decide) hc
    simpa using hne
  unfold Integer.wellSpaced
  rw [hfields]
  simpa using hne

/-- **A run of digits is read unless it is too long.** -/
theorem read_decimals (hne : p ≠ []) :
    Integer.read p
      = if Integer.maxDigits < p.length then .error (.integerTooLong p.length)
        else .ok p.number := by
  have hmargin : p.dropWhile Integer.isMargin = p := by
    refine List.dropWhile_eq_self_iff.mpr fun hlen => ?_
    simp [Integer.isMargin, not_isBlank_of_isDecimal (hp _ (List.getElem_mem hlen))]
  have hrun : ∀ c ∈ p, Integer.isRunChar c = true := by
    intro c hc
    unfold Integer.isRunChar
    rw [hp c hc, Bool.or_true]
  unfold Integer.read
  rw [hmargin, unsigned_of_digitLike hp.digitLike]
  dsimp only
  rw [List.takeWhile_eq_self_iff.mpr hrun, List.dropWhile_eq_nil_iff.mpr hrun,
    wellSpaced_decimals hp hne, length_values hp, ofDigits_values]
  rfl

end TermMarkup
