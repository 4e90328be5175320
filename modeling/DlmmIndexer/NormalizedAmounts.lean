import DlmmIndexer.BinMath
import DlmmIndexer.Library.Numeral

/-!
# Normalized amounts

`normalizeAmount` divides an amount by a power of ten and writes down 18 places of the
fraction, less the zeros at its end.  It thus writes the number of whole units of the 18th
place.
-/

namespace DlmmIndexer.BinMath

open JavaScript Numeral

/-- The remainder has its own units, less than one whole. -/
theorem units_of_remainder (amount : ℕ) {divisor : ℕ} (positive : 0 < divisor) :
    amount * 10 ^ 18 / divisor =
      10 ^ 18 * (amount / divisor) + amount % divisor * 10 ^ 18 / divisor := by
  conv_lhs => rw [← Nat.div_add_mod amount divisor]
  rw [Nat.add_mul, Nat.mul_assoc, Nat.mul_add_div positive, Nat.mul_comm (amount / divisor)]

theorem units_lt (amount : ℕ) {divisor : ℕ} (positive : 0 < divisor) :
    amount % divisor * 10 ^ 18 / divisor < 10 ^ 18 := by
  rw [Nat.div_lt_iff_lt_mul positive, Nat.mul_comm (10 ^ 18)]
  exact Nat.mul_lt_mul_of_pos_right (Nat.mod_lt _ positive) (by decide)

theorem trimZeros_padStart (value : ℕ) :
    trimZeros (padStart (decimal value).toList) = trimmed (padded 18 value) := by
  rw [toList_decimal_natCast]
  rfl

/-- `normalizeAmount` writes the number of whole units of the 18th place. -/
theorem normalizeAmount_eq_ofUnits (amount decimals : ℕ) :
    normalizeAmount amount decimals = ofUnits 18 (amount * 10 ^ 18 / 10 ^ decimals) := by
  have positive : 0 < 10 ^ decimals := Nat.pow_pos (by decide)
  have units := units_of_remainder amount positive
  have small := units_lt amount positive
  rw [ofUnits, units, Nat.mul_add_div (by decide), Nat.div_eq_of_lt small, Nat.mul_add_mod,
    Nat.mod_eq_of_lt small, Nat.add_zero, normalizeAmount]
  by_cases exact : amount % 10 ^ decimals = 0
  · rw [if_pos exact, exact, Nat.zero_mul, Nat.zero_div, if_pos (by decide)]
  · simp only [if_neg exact, trimZeros_padStart]

/-- Up to 18 decimals the units of the amount are whole units of the 18th place. -/
theorem units_of_le (amount : ℕ) {decimals : ℕ} (short : decimals ≤ 18) :
    amount * 10 ^ 18 / 10 ^ decimals = amount * 10 ^ (18 - decimals) := by
  have scale : 10 ^ 18 = 10 ^ (18 - decimals) * 10 ^ decimals := (pow_sub_mul_pow 10 short).symm
  rw [scale, ← Nat.mul_assoc, Nat.mul_div_cancel _ (Nat.pow_pos (by decide))]

/-- Every amount has a canonical numeral with at most 18 places, which stands for its whole
units of the 18th place.  Up to 18 decimals nothing is lost. -/
theorem normalizeAmount_exact :
    (∀ amount decimals : ℕ,
      Canonical 18 (normalizeAmount amount decimals) ∧
        parse (normalizeAmount amount decimals) =
          some ((amount * 10 ^ 18 / 10 ^ decimals : ℕ) / 10 ^ 18 : ℚ)) ∧
      ∀ decimals ≤ 18,
        (∀ amount : ℕ, ∃ value, parse (normalizeAmount amount decimals) = some value ∧
          value = amount / 10 ^ decimals ∧ value * 10 ^ decimals = amount) ∧
        Function.Injective fun amount => normalizeAmount amount decimals := by
  refine ⟨fun amount decimals => ?_, fun decimals short => ?_⟩
  · rw [normalizeAmount_eq_ofUnits]
    exact ⟨canonical_ofUnits (by decide) _, parse_ofUnits (by decide) _⟩
  · have scale : (10 : ℚ) ^ 18 = 10 ^ (18 - decimals) * 10 ^ decimals :=
      (pow_sub_mul_pow 10 short).symm
    refine ⟨fun amount => ⟨amount / 10 ^ decimals, ?_, rfl, ?_⟩, fun amount amount' same => ?_⟩
    · rw [normalizeAmount_eq_ofUnits, parse_ofUnits (by decide), units_of_le amount short,
        Nat.cast_mul, Nat.cast_pow, Nat.cast_ofNat, scale]
      field_simp
    · field_simp
    · change normalizeAmount amount decimals = normalizeAmount amount' decimals at same
      rw [normalizeAmount_eq_ofUnits, normalizeAmount_eq_ofUnits] at same
      have units := ofUnits_injective (by decide) same
      rw [units_of_le amount short, units_of_le amount' short] at units
      exact Nat.eq_of_mul_eq_mul_right (Nat.pow_pos (by decide)) units

example : normalizeAmount 1234500 6 = "1.2345" := by decide

end DlmmIndexer.BinMath
