import Mathlib.Algebra.Order.Field.Basic
import Mathlib.Data.Nat.Cast.Order.Field
import Mathlib.Tactic.GCongr
import Mathlib.Tactic.Linarith
import Mathlib.Tactic.Ring

/-!
# Truncated fixed-point numbers

A natural number stands for its quotient by a scale.  The product of two such numbers is
divided by the scale and truncated, so it falls short of the exact product.  The shortfall
is counted in units of the last place of 1, relative to the exact value: factors from 1 on
add theirs, and the truncation adds one unit.
-/

namespace FixedPoint

universe u

variable {K : Type u} [Field K] [LinearOrder K] [IsStrictOrderedRing K]

/-- `x` stands for `value`, less at most `error` of `scale` parts of it. -/
structure Approximates (scale : ℕ) (value error : K) (x : ℕ) : Prop where
  lower : value * (scale - error) ≤ x
  upper : (x : K) ≤ value * scale

variable {scale x y : ℕ} {value other error otherError : K}

/-- A truncated quotient is less than one below the exact one. -/
theorem sub_one_lt_cast_div (dividend : ℕ) {divisor : ℕ} (positive : 0 < divisor) :
    (dividend / divisor : K) - 1 < (dividend / divisor : ℕ) := by
  have positive' : (0 : K) < divisor := Nat.cast_pos.mpr positive
  have below : (dividend : K) < divisor * ((dividend / divisor : ℕ) + 1) := by
    exact_mod_cast Nat.lt_mul_div_succ dividend positive
  rw [sub_lt_iff_lt_add, div_lt_iff₀' positive']
  exact below

omit [IsStrictOrderedRing K] in
theorem approximates_one (scale : ℕ) : Approximates scale (1 : K) 0 scale where
  lower := by rw [one_mul, sub_zero]
  upper := by rw [one_mul]

/-- A fraction that is truncated to the scale is one unit off. -/
theorem approximates_one_add_div (scale part : ℕ) {whole : ℕ} (positive : 0 < whole) :
    Approximates scale (1 + part / whole : K) 1 (scale + part * scale / whole) where
  lower := by
    have truncated := sub_one_lt_cast_div (K := K) (part * scale) positive
    rw [Nat.cast_mul] at truncated
    have fraction : (0 : K) ≤ part / whole := by positivity
    rw [Nat.cast_add]
    calc (1 + part / whole : K) * (scale - 1)
        = scale + (part * scale / whole - 1) - part / whole := by ring
      _ ≤ scale + (part * scale / whole - 1) := sub_le_self _ fraction
      _ ≤ scale + (part * scale / whole : ℕ) := by gcongr
  upper := by
    have truncated : ((part * scale / whole : ℕ) : K) ≤ (part * scale : ℕ) / whole :=
      Nat.cast_div_le
    rw [Nat.cast_mul] at truncated
    rw [Nat.cast_add]
    calc (scale + (part * scale / whole : ℕ) : K) ≤ scale + part * scale / whole := by gcongr
      _ = (1 + part / whole) * scale := by ring

namespace Approximates

/-- The product before it is truncated: the errors add, as that of the one factor is taken
from a smaller other one. -/
theorem product (nonneg : 0 ≤ value) (nonneg_other : 0 ≤ other)
    (left : Approximates scale value error x) (right : Approximates scale other otherError y) :
    value * other * (scale - error - otherError) * scale ≤ x * y := by
  have short : 0 ≤ value * scale - x := sub_nonneg.mpr left.upper
  have short_other : 0 ≤ other * scale - y := sub_nonneg.mpr right.upper
  have bound : value * scale - x ≤ value * error := by linarith only [left.lower]
  have bound_other : other * scale - y ≤ other * otherError := by linarith only [right.lower]
  have scale_nonneg : (0 : K) ≤ scale := Nat.cast_nonneg scale
  calc value * other * (scale - error - otherError) * scale
      = value * scale * (other * scale) - value * error * (other * scale) -
          value * scale * (other * otherError) := by ring
    _ ≤ value * scale * (other * scale) - (value * scale - x) * (other * scale) -
          value * scale * (other * scale - y) := by gcongr
    _ ≤ value * scale * (other * scale) - (value * scale - x) * (other * scale) -
          value * scale * (other * scale - y) + (value * scale - x) * (other * scale - y) :=
        le_add_of_nonneg_right (mul_nonneg short short_other)
    _ = x * y := by ring

/-- The truncated product. -/
theorem mul (positive : 0 < scale) (one_le : 1 ≤ value) (one_le_other : 1 ≤ other)
    (left : Approximates scale value error x) (right : Approximates scale other otherError y) :
    Approximates scale (value * other) (error + otherError + 1) (x * y / scale) := by
  have positive' : (0 : K) < scale := Nat.cast_pos.mpr positive
  have nonneg : 0 ≤ value := zero_le_one.trans one_le
  have nonneg_other : 0 ≤ other := zero_le_one.trans one_le_other
  constructor
  · have one_le_product : 1 ≤ value * other := one_le_mul_of_one_le_of_one_le one_le one_le_other
    have truncated := sub_one_lt_cast_div (K := K) (x * y) positive
    rw [Nat.cast_mul] at truncated
    calc value * other * (scale - (error + otherError + 1))
        = value * other * (scale - error - otherError) - value * other := by ring
      _ ≤ x * y / scale - 1 := by
          refine sub_le_sub ?_ one_le_product
          exact (le_div_iff₀ positive').mpr (product nonneg nonneg_other left right)
      _ ≤ (x * y / scale : ℕ) := truncated.le
  · have truncated : ((x * y / scale : ℕ) : K) ≤ (x * y : ℕ) / scale := Nat.cast_div_le
    rw [Nat.cast_mul] at truncated
    refine truncated.trans ((div_le_iff₀ positive').mpr ?_)
    calc (x * y : K) ≤ value * scale * (other * scale) := by
          gcongr
          · exact left.upper
          · exact right.upper
      _ = value * other * scale * scale := by ring

end Approximates

/-- Truncated products of numbers from 1 on are from 1 on. -/
theorem le_mul_div (left : scale ≤ x) (right : scale ≤ y) : scale ≤ x * y / scale := by
  rcases scale.eq_zero_or_pos with rfl | positive
  · exact Nat.zero_le _
  · exact (Nat.le_div_iff_mul_le positive).mpr (Nat.mul_le_mul left right)

end FixedPoint
