import DlmmIndexer.BinMath
import DlmmIndexer.Library.FixedPoint

/-!
# Prices of bins

`getPriceFromId` raises the base `1 + binStep / 10000` to the distance of a bin from the
middle one, in Q64.64 numbers.  Every squaring of `powQ64` doubles the error of the base
and every product adds its truncation; with one unit for the truncation, the error of the
current base and its weight in the rest of the exponent balance, so that the result is two
units off for every unit of the exponent.  A step of the exponent multiplies the price by
much more than that.
-/

namespace DlmmIndexer.BinMath

open FixedPoint

theorem scale_pos : 0 < scale := by decide

/-- The base of the prices, as `getPriceFromId` computes it. -/
def base (binStep : ℕ) : ℕ := scale + binStep * scale / 10000

/-- The growth of the price from a bin to the next one. -/
def growth (binStep : ℕ) : ℚ := 1 + binStep / 10000

theorem one_le_growth (binStep : ℕ) : 1 ≤ growth binStep :=
  le_add_of_nonneg_right (by positivity)

theorem approximates_base (binStep : ℕ) :
    Approximates scale (growth binStep) 1 (base binStep) :=
  approximates_one_add_div scale binStep (by decide)

theorem scale_le_base (binStep : ℕ) : scale ≤ base binStep := Nat.le_add_right _ _

/-! ## Accuracy -/

/-- The loop multiplies its result with a power of the current base. -/
theorem approximates_powLoop (result currentBase exp : ℕ) {value factor error baseError : ℚ}
    (one_le : 1 ≤ value) (one_le_factor : 1 ≤ factor)
    (left : Approximates scale value error result)
    (right : Approximates scale factor baseError currentBase) :
    Approximates scale (value * factor ^ exp) (error + exp * (baseError + 1))
      (powLoop result currentBase exp) := by
  induction result, currentBase, exp using powLoop.induct
    generalizing value factor error baseError with
  | case1 result currentBase =>
      rw [powLoop, if_pos rfl, pow_zero, mul_one, Nat.cast_zero, zero_mul, add_zero]
      exact left
  | case2 result currentBase exp more ih =>
      have squared := right.mul scale_pos one_le_factor one_le_factor right
      have one_le_square := one_le_mul_of_one_le_of_one_le one_le_factor one_le_factor
      rw [powLoop, if_neg more]
      by_cases odd : exp % 2 = 1
      · rw [dif_pos odd] at ih
        rw [if_pos odd]
        have multiplied := left.mul scale_pos one_le one_le_factor right
        have one_le_product := one_le_mul_of_one_le_of_one_le one_le one_le_factor
        have rest := ih one_le_product one_le_square multiplied squared
        have halves : exp = 2 * (exp / 2) + 1 := by omega
        have power : value * factor * (factor * factor) ^ (exp / 2) = value * factor ^ exp := by
          conv_rhs => rw [halves, pow_succ, pow_mul]
          ring
        have errors : error + baseError + 1 + (exp / 2 : ℕ) * (baseError + baseError + 1 + 1) =
            error + exp * (baseError + 1) := by
          conv_rhs => rw [halves, Nat.cast_add, Nat.cast_mul]
          push_cast
          ring
        rwa [power, errors] at rest
      · rw [dif_neg odd] at ih
        rw [if_neg odd]
        have rest := ih one_le one_le_square left squared
        have halves : exp = 2 * (exp / 2) := by omega
        have power : value * (factor * factor) ^ (exp / 2) = value * factor ^ exp := by
          conv_rhs => rw [halves, pow_mul]
          ring
        have errors : error + (exp / 2 : ℕ) * (baseError + baseError + 1 + 1) =
            error + exp * (baseError + 1) := by
          conv_rhs => rw [halves, Nat.cast_mul]
          push_cast
          ring
        rwa [power, errors] at rest

/-- The loop keeps its numbers from 1 on. -/
theorem scale_le_powLoop {result currentBase : ℕ} (exp : ℕ) (left : scale ≤ result)
    (right : scale ≤ currentBase) : scale ≤ powLoop result currentBase exp := by
  induction result, currentBase, exp using powLoop.induct with
  | case1 result currentBase =>
      rw [powLoop, if_pos rfl]
      exact left
  | case2 result currentBase exp more ih =>
      rw [powLoop, if_neg more]
      refine ih ?_ (le_mul_div right right)
      split
      · exact le_mul_div left right
      · exact left

theorem approximates_powQ64 (binStep exponent : ℕ) :
    Approximates scale (growth binStep ^ exponent) (2 * exponent)
      (powQ64 (base binStep) exponent) := by
  have start := approximates_one (K := ℚ) scale
  have loop := approximates_powLoop scale (base binStep) exponent le_rfl (one_le_growth binStep)
    start (approximates_base binStep)
  have errors : (0 : ℚ) + exponent * (1 + 1) = 2 * exponent := by ring
  rw [one_mul, errors] at loop
  rw [powQ64]
  split
  · next zero =>
      rw [zero, pow_zero, Nat.cast_zero, mul_zero]
      exact start
  · split
    · next one =>
        have single := approximates_base binStep
        rw [one, pow_one, Nat.cast_one, mul_one]
        refine ⟨le_trans ?_ single.lower, single.upper⟩
        have nonneg := zero_le_one.trans (one_le_growth binStep)
        gcongr
        norm_num
    · exact loop

theorem scale_le_powQ64 (binStep exponent : ℕ) : scale ≤ powQ64 (base binStep) exponent := by
  rw [powQ64]
  split
  · exact le_rfl
  · split
    · exact scale_le_base binStep
    · exact scale_le_powLoop exponent le_rfl (scale_le_base binStep)

theorem powQ64_pos (binStep exponent : ℕ) : 0 < powQ64 (base binStep) exponent :=
  scale_pos.trans_le (scale_le_powQ64 binStep exponent)

/-- The result of `powQ64` is never above the exact power, and below it by at most two units
of the last place for every unit of the exponent.  It is not below 1, so the reciprocal for
the bins below the middle one divides by no zero. -/
theorem powQ64_accurate (binStep exponent : ℕ) :
    scale * growth binStep ^ exponent * (1 - 2 * exponent / 2 ^ 64) ≤
        (powQ64 (base binStep) exponent : ℚ) ∧
      (powQ64 (base binStep) exponent : ℚ) ≤ scale * growth binStep ^ exponent ∧
      scale ≤ powQ64 (base binStep) exponent ∧ powQ64 (base binStep) exponent ≠ 0 := by
  have approximates := approximates_powQ64 binStep exponent
  have scale_eq : (scale : ℚ) = 2 ^ 64 := by norm_num [scale]
  refine ⟨?_, ?_, scale_le_powQ64 binStep exponent, (powQ64_pos binStep exponent).ne'⟩
  · have lower := approximates.lower
    rw [scale_eq] at lower ⊢
    calc (2 ^ 64 : ℚ) * growth binStep ^ exponent * (1 - 2 * exponent / 2 ^ 64)
        = growth binStep ^ exponent * (2 ^ 64 - 2 * exponent) := by ring
      _ ≤ (powQ64 (base binStep) exponent : ℚ) := lower
  · have upper := approximates.upper
    rw [mul_comm] at upper
    exact upper

/-! ## Monotonicity -/

/-- One step of the exponent outweighs the error of 2 ^ 32 of them. -/
theorem scale_lt_growth_mul {binStep exponent : ℕ} (positive : 1 ≤ binStep)
    (small : exponent < 2 ^ 32) : (scale : ℚ) < growth binStep * (scale - 2 * exponent) := by
  have grows : (10001 / 10000 : ℚ) ≤ growth binStep := by
    have : (1 : ℚ) ≤ binStep := by exact_mod_cast positive
    rw [growth]
    linarith
  have bound : (2 ^ 64 - 2 ^ 33 : ℚ) ≤ scale - 2 * exponent := by
    have : (exponent : ℚ) < 2 ^ 32 := by exact_mod_cast small
    norm_num [scale]
    linarith
  calc (scale : ℚ) < 10001 / 10000 * (2 ^ 64 - 2 ^ 33) := by norm_num [scale]
    _ ≤ growth binStep * (scale - 2 * exponent) := by gcongr

theorem powQ64_lt_powQ64 {binStep lower upper : ℕ} (positive : 1 ≤ binStep) (below : lower < upper)
    (small : upper < 2 ^ 32) :
    powQ64 (base binStep) lower < powQ64 (base binStep) upper := by
  have one_le := one_le_growth binStep
  obtain ⟨previous, rfl⟩ : ∃ previous, upper = previous + 1 := ⟨upper - 1, by omega⟩
  have powers : growth binStep ^ lower ≤ growth binStep ^ previous :=
    pow_le_pow_right₀ one_le (Nat.lt_succ_iff.mp below)
  have positive_power : 0 < growth binStep ^ previous := pow_pos (zero_lt_one.trans_le one_le) _
  have exact : (powQ64 (base binStep) lower : ℚ) < powQ64 (base binStep) (previous + 1) := by
    calc (powQ64 (base binStep) lower : ℚ)
        ≤ growth binStep ^ lower * scale := (approximates_powQ64 binStep lower).upper
      _ ≤ growth binStep ^ previous * scale := by gcongr
      _ < growth binStep ^ previous *
            (growth binStep * (scale - 2 * (previous + 1 : ℕ))) := by
          gcongr
          exact scale_lt_growth_mul positive small
      _ = growth binStep ^ (previous + 1) * (scale - 2 * (previous + 1 : ℕ)) := by
          rw [pow_succ, mul_assoc]
      _ ≤ powQ64 (base binStep) (previous + 1) := (approximates_powQ64 binStep _).lower
  exact_mod_cast exact

theorem powQ64_le_powQ64 {binStep lower upper : ℕ} (positive : 1 ≤ binStep) (le : lower ≤ upper)
    (small : upper < 2 ^ 32) :
    powQ64 (base binStep) lower ≤ powQ64 (base binStep) upper := by
  rcases le.eq_or_lt with rfl | below
  · exact le_rfl
  · exact (powQ64_lt_powQ64 positive below small).le

/-- The price of a bin as a Q64.64 integer. -/
def price (binStep id : ℕ) : ℕ :=
  if middleBinId ≤ id then powQ64 (base binStep) (id - middleBinId)
  else scale * scale / powQ64 (base binStep) (middleBinId - id)

theorem getPriceFromId_eq_price {binStep : ℕ} (positive : 1 ≤ binStep) (le : binStep ≤ maxBinStep)
    (id : ℕ) : getPriceFromId binStep id = .ok (price binStep id) := by
  rw [getPriceFromId, if_neg (by omega), price]
  by_cases middle : id = middleBinId
  · rw [if_pos middle, if_pos middle.ge, middle, Nat.sub_self]
    rfl
  · rw [if_neg middle]
    by_cases above : middleBinId < id
    · rw [if_pos above, if_pos above.le]
      rfl
    · rw [if_neg above, if_neg (by omega)]
      rfl

/-- Prices below the middle bin are at most 1, prices above it at least 1. -/
theorem price_le_scale {binStep id : ℕ} (below : id < middleBinId) : price binStep id ≤ scale := by
  rw [price, if_neg (Nat.not_le.mpr below)]
  refine Nat.div_le_of_le_mul ?_
  exact Nat.mul_le_mul_right scale (scale_le_powQ64 binStep _)

theorem scale_le_price {binStep id : ℕ} (above : middleBinId ≤ id) : scale ≤ price binStep id := by
  rw [price, if_pos above]
  exact scale_le_powQ64 binStep _

theorem price_le_price {binStep a b : ℕ} (positive : 1 ≤ binStep) (below : a < b)
    (small : b < 2 ^ 32) : price binStep a ≤ price binStep b := by
  by_cases lowerAbove : middleBinId ≤ a
  · rw [price, if_pos lowerAbove, price, if_pos (lowerAbove.trans below.le)]
    exact powQ64_le_powQ64 positive (by omega) (by omega)
  · by_cases upperAbove : middleBinId ≤ b
    · exact (price_le_scale (Nat.not_le.mp lowerAbove)).trans (scale_le_price upperAbove)
    · rw [price, if_neg lowerAbove, price, if_neg upperAbove]
      have distance : middleBinId - a < 2 ^ 32 :=
        (Nat.sub_le _ _).trans_lt (by decide)
      exact Nat.div_le_div_left (powQ64_le_powQ64 positive (by omega) distance)
        (powQ64_pos binStep _)

/-- A later bin has no smaller price, and a larger one from the middle bin on.  No price is
the reciprocal of zero. -/
theorem getPriceFromId_monotone {binStep a b : ℕ} (positive : 1 ≤ binStep) (le : binStep ≤ 100)
    (below : a < b) (small : b < 2 ^ 32) :
    ∃ lower upper, getPriceFromId binStep a = .ok lower ∧ getPriceFromId binStep b = .ok upper ∧
      lower ≤ upper ∧ (2 ^ 23 ≤ a → lower < upper) ∧
      ∀ id < 2 ^ 23, powQ64 (base binStep) (2 ^ 23 - id) ≠ 0 := by
  refine ⟨price binStep a, price binStep b, getPriceFromId_eq_price positive le a,
    getPriceFromId_eq_price positive le b, price_le_price positive below small, fun above => ?_,
    fun id _ => (powQ64_pos binStep _).ne'⟩
  have lowerAbove : middleBinId ≤ a := above
  rw [price, if_pos lowerAbove, price, if_pos (lowerAbove.trans below.le)]
  exact powQ64_lt_powQ64 positive (by omega) (by omega)

/-- The bins around the middle one at the smallest step. -/
theorem getPriceFromId_monotone_middle :
    ∃ lower upper, getPriceFromId 1 8388608 = .ok lower ∧ getPriceFromId 1 8388609 = .ok upper ∧
      lower ≤ upper ∧ (2 ^ 23 ≤ 8388608 → lower < upper) ∧
      ∀ id < 2 ^ 23, powQ64 (base 1) (2 ^ 23 - id) ≠ 0 :=
  getPriceFromId_monotone (by decide) (by decide) (by decide) (by decide)

end DlmmIndexer.BinMath
