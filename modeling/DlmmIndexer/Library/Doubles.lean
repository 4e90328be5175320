import DlmmIndexer.Library.NumberText

/-!
# Doubles beyond 2^53

Rounding to a double commutes with scaling by powers of two and is idempotent, and a
double that prints without an exponent is read back as it is.
-/

namespace JavaScript

/-! ## Rounding natural numbers -/

/-- From 2^53 on a rounded number is a mantissa times the unit of its size. -/
theorem roundNat_eq_mul {value : ℕ} (large : 2 ^ 53 ≤ value) :
    ∃ mantissa ≤ 2 ^ 53, roundNat value = mantissa * 2 ^ (Nat.log2 value - 52) := by
  have nonzero : value ≠ 0 := by omega
  have wide : 53 ≤ Nat.log2 value := (Nat.le_log2 nonzero).mpr large
  have quotient : value / 2 ^ (Nat.log2 value - 52) < 2 ^ 53 := by
    rw [Nat.div_lt_iff_lt_mul (by positivity), ← Nat.pow_add]
    exact (Nat.log2_lt nonzero).mp (by omega)
  rw [roundNat, if_neg (Nat.not_lt_of_le large)]
  dsimp only
  split
  · exact ⟨_, quotient.le, rfl⟩
  · exact ⟨_, quotient, rfl⟩

/-- Rounding does not cross a power of two upwards. -/
theorem roundNat_le_pow {value bits : ℕ} (wide : 53 ≤ bits) (bound : value ≤ 2 ^ bits) :
    roundNat value ≤ 2 ^ bits := by
  rcases Nat.lt_or_ge value (2 ^ 53) with small | large
  · rwa [roundNat_of_lt small]
  rcases Nat.eq_or_lt_of_le bound with rfl | below
  · have power := @roundNat_mul_pow 1 (by decide) bits
    rw [Nat.one_mul] at power
    exact power.le
  obtain ⟨mantissa, le, rounded⟩ := roundNat_eq_mul large
  have size : Nat.log2 value < bits := (Nat.log2_lt (by omega)).mpr below
  rw [rounded]
  calc mantissa * 2 ^ (Nat.log2 value - 52)
      ≤ 2 ^ 53 * 2 ^ (Nat.log2 value - 52) := Nat.mul_le_mul_right _ le
    _ = 2 ^ (53 + (Nat.log2 value - 52)) := (Nat.pow_add ..).symm
    _ ≤ 2 ^ bits := Nat.pow_le_pow_right (by decide) (by omega)

/-- Rounding a double changes nothing. -/
theorem roundNat_roundNat (value : ℕ) : roundNat (roundNat value) = roundNat value := by
  rcases Nat.lt_or_ge value (2 ^ 53) with small | large
  · rw [roundNat_of_lt small, roundNat_of_lt small]
  obtain ⟨mantissa, le, rounded⟩ := roundNat_eq_mul large
  rw [rounded]
  rcases Nat.eq_or_lt_of_le le with rfl | lt
  · rw [← Nat.pow_add, ← Nat.one_mul (2 ^ _)]
    exact roundNat_mul_pow (by decide) _
  · exact roundNat_mul_pow lt _

/-- Rounding commutes with scaling by a power of two. -/
theorem roundNat_mul_two_pow (value bits : ℕ) :
    roundNat (value * 2 ^ bits) = roundNat value * 2 ^ bits := by
  rcases Nat.lt_or_ge value (2 ^ 53) with small | large
  · rw [roundNat_of_lt small, roundNat_mul_pow small]
  have nonzero : value ≠ 0 := by omega
  have wide : 53 ≤ Nat.log2 value := (Nat.le_log2 nonzero).mpr large
  have scaled : 2 ^ 53 ≤ value * 2 ^ bits :=
    large.trans (Nat.le_mul_of_pos_right _ (by positivity))
  have size : Nat.log2 (value * 2 ^ bits) = Nat.log2 value + bits := by
    rw [Nat.log2_eq_iff (by omega), Nat.pow_add, Nat.add_right_comm, Nat.pow_add _ _ bits]
    exact ⟨Nat.mul_le_mul_right _ (Nat.log2_self_le nonzero),
      Nat.mul_lt_mul_of_pos_right Nat.lt_log2_self (by positivity)⟩
  have unit : 2 ^ (Nat.log2 value + bits - 52) = 2 ^ (Nat.log2 value - 52) * 2 ^ bits := by
    rw [← Nat.pow_add]
    congr 1
    omega
  have power : 0 < 2 ^ bits := by positivity
  rw [roundNat, roundNat, if_neg (Nat.not_lt_of_le scaled), if_neg (Nat.not_lt_of_le large), size]
  dsimp only
  rw [unit, Nat.mul_div_mul_right _ _ (by positivity), Nat.mul_mod_mul_right]
  simp only [← Nat.mul_assoc, Nat.mul_lt_mul_right power, Nat.mul_left_inj power.ne', ite_mul]

/-! ## Rounding integers -/

@[simp] theorem round_natCast (value : ℕ) : round value = roundNat value := rfl

theorem round_neg (value : ℤ) : round (-value) = -round value := by
  cases value with
  | ofNat value =>
      cases value with
      | zero => rfl
      | succ value => rfl
  | negSucc value => exact (neg_neg _).symm

theorem natAbs_round (value : ℤ) : (round value).natAbs = roundNat value.natAbs := by
  rcases Int.natAbs_eq value with nonneg | neg
  · rw [nonneg, round_natCast, Int.natAbs_natCast, Int.natAbs_natCast]
  · rw [neg, round_neg, round_natCast, Int.natAbs_neg, Int.natAbs_neg, Int.natAbs_natCast,
      Int.natAbs_natCast]

theorem round_round (value : ℤ) : round (round value) = round value := by
  rcases Int.natAbs_eq value with nonneg | neg
  · rw [nonneg, round_natCast, round_natCast, roundNat_roundNat]
  · rw [neg, round_neg, round_neg, round_natCast, round_natCast, roundNat_roundNat]

theorem round_mul_two_pow (value : ℤ) (bits : ℕ) :
    round (value * 2 ^ bits) = round value * 2 ^ bits := by
  have scaled (value : ℕ) : round ((value : ℤ) * 2 ^ bits) = round value * 2 ^ bits := by
    have shape : (value : ℤ) * 2 ^ bits = (value * 2 ^ bits : ℕ) := by push_cast; rfl
    rw [shape, round_natCast, roundNat_mul_two_pow, round_natCast]
    push_cast
    rfl
  rcases Int.natAbs_eq value with nonneg | neg
  · rw [nonneg, scaled]
  · rw [neg, Int.neg_mul, round_neg, scaled, round_neg, Int.neg_mul]

theorem natAbs_round_le {value : ℤ} {bits : ℕ} (wide : 53 ≤ bits)
    (bound : value.natAbs ≤ 2 ^ bits) : (round value).natAbs ≤ 2 ^ bits := by
  rw [natAbs_round]
  exact roundNat_le_pow wide bound

/-! ## Numbers and their texts -/

namespace Number

/-- An integer that is not too large has a finite nearest double. -/
theorem ofInt_of_le {value : ℤ} {bits : ℕ} (wide : 53 ≤ bits) (narrow : bits < 1024)
    (bound : value.natAbs ≤ 2 ^ bits) : ofInt value = .finite (round value) := by
  have rounded := natAbs_round_le wide bound
  refine if_pos ?_
  rcases Nat.eq_zero_or_pos (round value).natAbs with zero | positive
  · rw [zero]
    decide
  · have size : Nat.log2 (round value).natAbs < bits + 1 :=
      (Nat.log2_lt positive.ne').mpr
        (rounded.trans_lt (Nat.pow_lt_pow_right (by decide) (Nat.lt_succ_self bits)))
    omega

/-- What a double prints rounds to the double. -/
theorem roundNat_shortest {value : ℕ} (double : roundNat value = value) :
    roundNat (shortest value) = value := by
  rw [shortest]
  cases found : List.find? (fun candidate => decide (roundNat candidate = value)) _ with
  | none => exact double
  | some candidate => simpa using List.find?_some found

theorem shortest_lt {value bits : ℕ} (double : roundNat value = value) (bound : value ≤ 2 ^ bits) :
    shortest value < 2 ^ (bits + 1) := by
  by_contra large
  have rounded := pow_le_roundNat (Nat.le_of_not_lt large)
  rw [roundNat_shortest double] at rounded
  exact absurd (rounded.trans bound) (Nat.not_le_of_lt (Nat.pow_lt_pow_right (by decide) (by simp)))

/-- Up to 2^68 a double prints without an exponent. -/
theorem unsignedText_of_le {value : ℕ} (double : roundNat value = value)
    (bound : value ≤ 2 ^ 68) : unsignedText value = decimal (shortest value) := by
  have digits : shortest value < 10 ^ 21 := (shortest_lt double bound).trans (by decide)
  rw [unsignedText, if_pos digits]
  rfl

/-- A sign is read as a negation. -/
theorem parseFloat_neg {text : String} {value : ℤ}
    (read : parseUnsigned text.toList = some (.finite value)) :
    parseFloat ("-" ++ text) = some (.finite (-value)) := by
  have signed : ("-" ++ text).toList = '-' :: text.toList := by
    rw [String.toList_append]
    rfl
  rw [parseFloat, signed]
  exact congrArg (Option.map neg) read

theorem head?_decimal (value : ℕ) : (decimal value).toList.head? ≠ some '-' := by
  obtain ⟨first, rest, shape, isDigit⟩ := toDigits_eq_cons value
  rw [toList_decimal_natCast, shape, List.head?_cons, ne_eq, Option.some_inj]
  rintro rfl
  cases isDigit

/-- The text of a natural number is read as the nearest double. -/
theorem parseUnsigned_decimal {value bits : ℕ} (wide : 53 ≤ bits) (narrow : bits < 1024)
    (bound : value ≤ 2 ^ bits) :
    parseUnsigned (decimal value).toList = some (.finite (round value)) := by
  rw [toList_decimal_natCast, parseUnsigned_toDigits,
    ofInt_of_le wide narrow (by rwa [Int.natAbs_natCast])]

/-- `parseFloat` reads the text of a natural number as the nearest double. -/
theorem parseFloat_decimal_natCast {value bits : ℕ} (wide : 53 ≤ bits) (narrow : bits < 1024)
    (bound : value ≤ 2 ^ bits) : parseFloat (decimal value) = some (.finite (round value)) := by
  obtain ⟨first, rest, shape, isDigit⟩ := toDigits_eq_cons value
  rw [parseFloat_of_digit ((toList_decimal_natCast value).trans shape) isDigit,
    parseUnsigned_decimal wide narrow bound]

/-- `parseFloat` reads the text of an integer as the nearest double. -/
theorem parseFloat_decimal_of_le {value : ℤ} {bits : ℕ} (wide : 53 ≤ bits) (narrow : bits < 1024)
    (bound : value.natAbs ≤ 2 ^ bits) :
    parseFloat (decimal value) = some (.finite (round value)) := by
  cases value with
  | ofNat value => exact parseFloat_decimal_natCast wide narrow bound
  | negSucc value => exact parseFloat_neg (parseUnsigned_decimal wide narrow bound)

/-- Below 2^53 `parseFloat` reads the text of an integer exactly. -/
theorem parseFloat_decimal {value : ℤ} (small : value.natAbs < 2 ^ 53) :
    parseFloat (decimal value) = some (.finite value) := by
  rw [parseFloat_decimal_of_le (by decide) (by decide) small.le, round_of_lt small]

/-- Up to 2^68 a double is read back from its text. -/
theorem parseFloat_toString {value : ℤ} (double : round value = value)
    (bound : value.natAbs ≤ 2 ^ 68) :
    parseFloat (finite value).toString = some (.finite value) := by
  have unsigned {value : ℕ} (double : roundNat value = value) (bound : value ≤ 2 ^ 68) :
      parseUnsigned (unsignedText value).toList = some (.finite value) := by
    rw [unsignedText_of_le double bound, @parseUnsigned_decimal _ 69 (by decide) (by decide)
      (shortest_lt double bound).le, round_natCast, roundNat_shortest double]
  have double' : roundNat value.natAbs = value.natAbs := by rw [← natAbs_round, double]
  cases value with
  | ofNat value =>
      obtain ⟨first, rest, shape, isDigit⟩ := exists_toList_unsignedText value
      exact (parseFloat_of_digit shape isDigit).trans (unsigned double' bound)
  | negSucc value => exact parseFloat_neg (unsigned double' bound)

/-- Up to 2^68 a double prints as an integer exactly when it is the double nearest to it
and the integer is what that double prints. -/
theorem toString_eq_decimal_iff {value : ℤ} {integer : ℕ} (double : round value = value)
    (bound : value.natAbs ≤ 2 ^ 68) : (finite value).toString = decimal integer ↔
      value = round integer ∧ shortest (roundNat integer) = integer := by
  have double' : roundNat value.natAbs = value.natAbs := by rw [← natAbs_round, double]
  cases value with
  | ofNat value =>
      have natural : roundNat value = value := double'
      have text : (finite (Int.ofNat value)).toString = decimal (shortest value) :=
        unsignedText_of_le natural bound
      rw [text]
      constructor
      · intro same
        have printed : shortest value = integer := by exact_mod_cast decimal_injective same
        subst printed
        rw [round_natCast, roundNat_shortest natural]
        exact ⟨rfl, rfl⟩
      · rintro ⟨nearest, printed⟩
        have same : value = roundNat integer := Int.ofNat.inj nearest
        rw [same, printed]
  | negSucc value =>
      refine iff_of_false (fun same => ?_) fun both => ?_
      · refine head?_decimal integer (same ▸ ?_)
        rw [Number.toString, String.toList_append]
        rfl
      · have positive : (0 : ℤ) ≤ roundNat integer := Int.natCast_nonneg _
        rw [← round_natCast, ← both.1] at positive
        exact absurd positive (Int.negSucc_not_nonneg value).mp

end Number

end JavaScript
