/-
  TermMarkup.Proofs.Rounding
  ──────────────────────────
  ROUNDING STAYS BELOW BOUNDS OF THE FORMAT.  A bound that is a multiple of the
  largest spacing of the format lies on every grid to which a smaller number is
  rounded, so no smaller number is rounded beyond it; and a number that is
  rounded to at most a finite bound is rounded to a finite number.

    • `roundQuotient_le` — rounding keeps bounds that are whole,
    • `exponentOf_spec` — a positive exponent leaves a full significand,
    • `ofQuotient?_le` — below a bound of the format numbers stay finite,
    • `scale?_le` — as do their multiples below such a bound.
-/
import TermMarkup.Number.Binary64
import Mathlib.Algebra.Order.Ring.Nat
import Mathlib.Tactic.Ring

namespace TermMarkup

/-! ## §1. Whole numbers. -/

/-- **Rounding keeps bounds that are whole.** -/
theorem roundQuotient_le {num den bound : Nat} (hden : 0 < den) (h : num ≤ bound * den) :
    roundQuotient num den ≤ bound := by
  have hsplit := Nat.div_add_mod num den
  have hlow : num / den ≤ bound := Nat.div_le_of_le_mul (by rwa [Nat.mul_comm] at h)
  -- a rest means that the quotient is below the bound, not at it
  have hrest : 0 < num % den → num / den < bound := by
    intro hpos
    refine Nat.div_lt_of_lt_mul (Nat.lt_of_le_of_ne (by rwa [Nat.mul_comm] at h) fun heq => ?_)
    rw [heq, Nat.mul_mod_right] at hpos
    exact Nat.lt_irrefl 0 hpos
  unfold roundQuotient
  dsimp only
  split
  · exact hlow
  · split
    · exact hrest (by omega)
    · have := hrest (by omega)
      omega

theorem twoTo_eq {n : Int} {k : Nat} (h : n.toNat = k) : twoTo n = 2 ^ k := by
  rw [← h]
  rfl

theorem twoTo_natCast (n : Nat) : twoTo (n : Int) = 2 ^ n := rfl

theorem twoTo_of_nonpos {n : Int} (h : n ≤ 0) : twoTo n = 1 := by
  unfold twoTo
  rw [Int.toNat_of_nonpos h]

theorem twoTo_le {n : Int} {k : Nat} (h : n.toNat ≤ k) : twoTo n ≤ 2 ^ k :=
  Nat.pow_le_pow_right Nat.two_pos h

theorem twoTo_pos (n : Int) : 0 < twoTo n := Nat.pow_pos Nat.two_pos

namespace Binary64

/-! ## §2. Exponents. -/

/-- A quotient of two numbers is above the quotient of the powers of two around them. -/
theorem pow_le_of_log2 {num den e : Nat} (hnum : num ≠ 0)
    (he : e + den.log2 + 1 ≤ num.log2) : den * 2 ^ e ≤ num := by
  have hden : den < 2 ^ (den.log2 + 1) := Nat.lt_log2_self
  calc den * 2 ^ e ≤ 2 ^ (den.log2 + 1) * 2 ^ e := Nat.mul_le_mul_right _ (Nat.le_of_lt hden)
    _ = 2 ^ (e + den.log2 + 1) := by rw [← Nat.pow_add]; congr 1; omega
    _ ≤ 2 ^ num.log2 := Nat.pow_le_pow_right Nat.two_pos he
    _ ≤ num := Nat.log2_self_le hnum

/-- **A positive exponent leaves a full significand**: the number is at least `2 ^ 52` of its
spacings. -/
theorem exponentOf_spec {num den e : Nat} (hnum : num ≠ 0) (he : 0 < e)
    (h : exponentOf num den = e) : den * 2 ^ (e + 52) ≤ num := by
  unfold exponentOf at h
  dsimp only at h
  split at h
  · next hexact =>
    -- the guess is one too low, and the test says so
    have htop : (num.log2 : Int) - den.log2 - precision + precision = ((e + 52 : Nat) : Int) := by
      have hmin : minExponent < 0 := by decide
      have hprecision : (precision : Int) = 53 := rfl
      omega
    rw [htop, twoTo_natCast, twoTo_of_nonpos (by omega), Nat.mul_one] at hexact
    exact hexact
  · refine pow_le_of_log2 hnum ?_
    have hmin : minExponent < 0 := by decide
    have hprecision : (precision : Int) = 53 := rfl
    omega

/-- The exponent of the largest numbers. -/
def topExponent : Nat := 971

/-- Numbers below the largest ones are spaced no further apart than those. -/
theorem exponentOf_le {num den bound : Nat} (hnum : num ≠ 0) (hden : 0 < den)
    (hbound : bound < twoTo maxExponent) (h : num ≤ bound * den) :
    exponentOf num den ≤ topExponent := by
  by_contra hlt
  have htop : topExponent + 53 = maxExponent.toNat := rfl
  obtain ⟨e, he⟩ := Int.eq_ofNat_of_zero_le (a := exponentOf num den) (by omega)
  have hspec := exponentOf_spec hnum (by omega) he
  have hpow : twoTo maxExponent ≤ 2 ^ (e + 52) := twoTo_le (by omega)
  have hbeyond : bound * den < den * 2 ^ (e + 52) := by
    rw [Nat.mul_comm]
    exact Nat.mul_lt_mul_of_pos_left (Nat.lt_of_lt_of_le hbound hpow) hden
  exact absurd (Nat.le_trans hspec h) (Nat.not_le.mpr hbeyond)

/-! ## §3. Finite numbers. -/

variable {bound : Nat}

/-- **Rounding to a grid that the bound lies on keeps the bound.** -/
theorem numerator_le {num den : Nat} {e : Int} (hden : 0 < den) (he : e ≤ topExponent)
    (hgrid : 2 ^ topExponent ∣ bound) (h : num ≤ bound * den) :
    numerator ⟨roundQuotient (num * twoTo (-e)) (den * twoTo e), e⟩ ≤ bound * twoTo (-e) := by
  show roundQuotient _ _ * twoTo e ≤ _
  rcases Int.le_total e 0 with hneg | hpos
  · rw [twoTo_of_nonpos hneg, Nat.mul_one, Nat.mul_one]
    refine roundQuotient_le hden ?_
    calc num * twoTo (-e) ≤ bound * den * twoTo (-e) := Nat.mul_le_mul_right _ h
      _ = bound * twoTo (-e) * den := by ring
  · -- the bound is a whole number of spacings
    obtain ⟨n, rfl⟩ := Int.eq_ofNat_of_zero_le hpos
    obtain ⟨k, hk⟩ := Nat.dvd_trans (Nat.pow_dvd_pow 2 (by omega : n ≤ topExponent)) hgrid
    rw [twoTo_of_nonpos (by omega), Nat.mul_one, Nat.mul_one, twoTo_natCast]
    have hwhole : roundQuotient num (den * 2 ^ n) ≤ k := by
      refine roundQuotient_le (Nat.mul_pos hden (Nat.pow_pos Nat.two_pos)) ?_
      calc num ≤ bound * den := h
        _ = k * (den * 2 ^ n) := by rw [hk]; ring
    calc roundQuotient num (den * 2 ^ n) * 2 ^ n ≤ k * 2 ^ n := Nat.mul_le_mul_right _ hwhole
      _ = bound := by rw [hk]; ring

/-- **Below a bound of the format numbers stay finite**, and below the bound. -/
theorem ofQuotient?_le {num den : Nat} (hden : 0 < den) (hbound : bound < twoTo maxExponent)
    (hgrid : 2 ^ topExponent ∣ bound) (h : num ≤ bound * den) :
    ∃ x : Binary64, ofQuotient? num den = some x ∧ x.numerator ≤ bound * x.denominator := by
  unfold ofQuotient?
  by_cases hnum : num = 0
  · rw [if_pos hnum]
    exact ⟨_, rfl, Nat.zero_le _⟩
  · have hle := numerator_le hden (exponentOf_le hnum hden hbound h) hgrid h
    rw [if_neg hnum]
    dsimp only
    rw [if_neg]
    · exact ⟨_, rfl, hle⟩
    · refine Nat.not_le.mpr (Nat.lt_of_le_of_lt hle ?_)
      exact Nat.mul_lt_mul_of_pos_right hbound (twoTo_pos _)

/-- **So do their multiples** below such a bound. -/
theorem scale?_le {x : Binary64} {n : Nat} (hx : x.numerator ≤ bound * x.denominator)
    (hbound : bound * n < twoTo maxExponent) (hgrid : 2 ^ topExponent ∣ bound) :
    ∃ y : Binary64, x.scale? n = some y ∧ y.numerator ≤ bound * n * y.denominator := by
  refine ofQuotient?_le (twoTo_pos _) hbound (Nat.dvd_mul_right_of_dvd hgrid n) ?_
  calc x.numerator * n ≤ bound * x.denominator * n := Nat.mul_le_mul_right n hx
    _ = bound * n * x.denominator := by ring

end Binary64

end TermMarkup
