/-
  TermMarkup.Number.Binary64
  ──────────────────────────
  BINARY FLOATING POINT of 64 bits, as exact numbers.  A quotient of natural
  numbers is rounded to the nearest number of the format, a tie to the even
  significand, and there is no such number from 2 ^ 1024 on.
-/
namespace TermMarkup

/-- The natural number nearest to `num / den`; a tie goes to the even neighbour. -/
def roundQuotient (num den : Nat) : Nat :=
  let low := num / den
  let rest := num % den
  if 2 * rest < den then low
  else if den < 2 * rest then low + 1
  else low + low % 2

/-- Two to the power of `n`; one for a negative `n`. -/
def twoTo (n : Int) : Nat := Nat.pow 2 n.toNat

/-- The number `significand * 2 ^ exponent`. -/
structure Binary64 where
  significand : Nat
  exponent : Int
  deriving DecidableEq, Repr

namespace Binary64

/-- Digits of a significand. -/
def precision : Nat := 53

/-- The exponent of the smallest positive number. -/
def minExponent : Int := -1074

/-- The power of two from which on there are no finite numbers. -/
def maxExponent : Int := 1024

/-- The numerator of `x` as a quotient. -/
def numerator (x : Binary64) : Nat := x.significand * twoTo x.exponent

/-- The denominator of `x` as a quotient. -/
def denominator (x : Binary64) : Nat := twoTo (-x.exponent)

/-- The exponent at which `num / den` has a significand of full precision, or the least one. -/
def exponentOf (num den : Nat) : Int :=
  let guess : Int := (num.log2 : Int) - den.log2 - precision
  let top := guess + precision
  let exact := if den * twoTo top ≤ num * twoTo (-top) then guess + 1 else guess
  max minExponent exact

/-- The number nearest to `num / den`, `none` if that is infinity. -/
def ofQuotient? (num den : Nat) : Option Binary64 :=
  if num = 0 then some ⟨0, 0⟩
  else
    let exponent := exponentOf num den
    let significand := roundQuotient (num * twoTo (-exponent)) (den * twoTo exponent)
    let x : Binary64 := ⟨significand, exponent⟩
    if twoTo maxExponent * x.denominator ≤ x.numerator then none else some x

/-- The product of `x` and `n`, rounded. -/
def scale? (x : Binary64) (n : Nat) : Option Binary64 :=
  ofQuotient? (x.numerator * n) x.denominator

/-- The natural number nearest to `x`; a tie goes to the even neighbour. -/
def nearest (x : Binary64) : Nat := roundQuotient x.numerator x.denominator

end Binary64

end TermMarkup
