import Mathlib.Data.Rat.Cast.Defs
import Mathlib.Algebra.Order.Field.Rat
import Mathlib.Tactic.Common

/-!
# Rounding to double precision

The double nearest to a fraction of natural numbers, the even one of two.  Infinity is no rational:
a fraction beyond the largest double is rounded as if the exponent went on.

* `floorLog2 num den` : the binary exponent of the fraction.
* `divHalfEven num den` : the nearest integer.
* `toDouble num den` : the nearest double; an integer below `2 ^ 53` is one (`toDouble_one`).
-/

namespace Codec

/-- `⌊log₂ (num / den)⌋`. -/
def floorLog2 (num den : ℕ) : ℤ :=
  let e : ℤ := num.log2 - den.log2
  if num * 2 ^ (-e).toNat < den * 2 ^ e.toNat then e - 1 else e

/-- The integer nearest to `num / den`, the even one of two. -/
def divHalfEven (num den : ℕ) : ℕ :=
  let n := num / den
  let r := num % den
  if 2 * r < den then n else if den < 2 * r then n + 1 else n + n % 2

/-- The double nearest to `num / den`: 53 significant digits, and none below `2 ^ (-1074)`. -/
def toDouble (num den : ℕ) : ℚ :=
  let e := max (floorLog2 num den - 52) (-1074)
  let significand := divHalfEven (num * 2 ^ (-e).toNat) (den * 2 ^ e.toNat)
  (significand * 2 ^ e.toNat : ℕ) / (2 ^ (-e).toNat : ℕ)

theorem divHalfEven_one (n : ℕ) : divHalfEven n 1 = n := by
  simp [divHalfEven, Nat.mod_one]

theorem floorLog2_one_le {k : ℕ} (hk : k < 2 ^ 53) : floorLog2 k 1 ≤ 52 := by
  have hlog : k.log2 ≤ 52 := by
    by_cases hzero : k = 0
    · simp [hzero]
    · exact Nat.le_of_lt_succ ((Nat.log2_lt hzero).2 hk)
  have hone : Nat.log2 1 = 0 := rfl
  dsimp only [floorLog2]
  split_ifs <;> omega

theorem toDouble_one {k : ℕ} (hk : k < 2 ^ 53) : toDouble k 1 = k := by
  have hlog := floorLog2_one_le hk
  have he : (max (floorLog2 k 1 - 52) (-1074)).toNat = 0 := by omega
  -- nothing is rounded off, since the last digit kept stands for at most one
  simp only [toDouble, he, pow_zero, Nat.mul_one, divHalfEven_one]
  have hpow : ((2 ^ (-max (floorLog2 k 1 - 52) (-1074)).toNat : ℕ) : ℚ) ≠ 0 := by
    exact_mod_cast Nat.pos_iff_ne_zero.1 (Nat.two_pow_pos _)
  rw [Nat.cast_mul, mul_div_cancel_right₀ _ hpow]

example : toDouble (2 ^ 53 + 1) 1 = (2 ^ 53 : ℕ) := by decide +kernel

end Codec
