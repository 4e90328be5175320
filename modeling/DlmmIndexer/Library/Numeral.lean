import DlmmIndexer.Library.JavaScript
import Mathlib.Algebra.Order.Field.Rat
import Mathlib.Data.List.DropRight
import Mathlib.Tactic.FieldSimp

/-!
# Decimal numerals with a fraction

A numeral is canonical if it has neither a zero in front of other digits nor a zero at the
end of its fraction, nor a fraction without digits.  A natural number that counts units of
a power of ten has a canonical numeral: its digits are cut where the units begin, and the
zeros at the end are left out.
-/

namespace Numeral

open JavaScript

/-! ## Grammar and value -/

/-- The digits before the point. -/
structure Whole (digits : List Char) : Prop where
  nonempty : digits ≠ []
  every : ∀ digit ∈ digits, digit.isDigit = true
  leading : digits.head? = some '0' → digits = ['0']

/-- The digits after the point. -/
structure Fraction (places : ℕ) (digits : List Char) : Prop where
  nonempty : digits ≠ []
  short : digits.length ≤ places
  every : ∀ digit ∈ digits, digit.isDigit = true
  trailing : digits.getLast? ≠ some '0'

/-- A numeral with at most the given number of places. -/
def Canonical (places : ℕ) (text : String) : Prop :=
  ∃ whole, Whole whole ∧ (text.toList = whole ∨
    ∃ fraction, Fraction places fraction ∧ text.toList = whole ++ '.' :: fraction)

/-- The number that a numeral stands for. -/
def parse (text : String) : Option ℚ :=
  let whole := text.toList.takeWhile (· ≠ '.')
  match text.toList.dropWhile (· ≠ '.') with
  | [] => (readDigits whole).map fun (value : ℕ) => (value : ℚ)
  | _ :: fraction => do
      let value ← readDigits whole
      let part ← readDigits fraction
      return value + part / 10 ^ fraction.length

theorem readDigits_of_digits {digits : List Char} (nonempty : digits ≠ [])
    (every : ∀ digit ∈ digits, digit.isDigit = true) :
    readDigits digits = some (Nat.ofDigitChars 10 digits 0) :=
  if_pos ⟨nonempty, List.all_eq_true.mpr every⟩

theorem not_point {digits : List Char} (every : ∀ digit ∈ digits, digit.isDigit = true) :
    ∀ digit ∈ digits, decide (digit ≠ '.') = true := by
  intro digit member
  rw [decide_eq_true_iff]
  rintro rfl
  cases every _ member

theorem parse_whole {text : String} {whole : List Char} (valid : Whole whole)
    (shape : text.toList = whole) : parse text = some (Nat.ofDigitChars 10 whole 0 : ℚ) := by
  have points := not_point valid.every
  rw [parse, shape, List.takeWhile_eq_self_iff.mpr points, List.dropWhile_eq_nil_iff.mpr points,
    readDigits_of_digits valid.nonempty valid.every]
  rfl

theorem parse_fraction {text : String} {places : ℕ} {whole fraction : List Char}
    (valid : Whole whole) (valid' : Fraction places fraction)
    (shape : text.toList = whole ++ '.' :: fraction) :
    parse text = some (Nat.ofDigitChars 10 whole 0 +
      Nat.ofDigitChars 10 fraction 0 / 10 ^ fraction.length : ℚ) := by
  have points := not_point valid.every
  rw [parse, shape, List.takeWhile_append_of_pos points, List.dropWhile_append_of_pos points,
    List.takeWhile_cons_of_neg (by decide), List.dropWhile_cons_of_neg (by decide),
    List.append_nil, readDigits_of_digits valid.nonempty valid.every]
  simp only [readDigits_of_digits valid'.nonempty valid'.every]
  rfl

/-! ## Digits of natural numbers -/

theorem digitChar_ne_zero : ∀ digit < 10, 0 < digit → digit.digitChar ≠ '0' := by decide

theorem head?_toDigits {value : ℕ} (positive : 0 < value) :
    (Nat.toDigits 10 value).head? ≠ some '0' := by
  induction value using Nat.base_induction 10 (by decide) with
  | single digit small =>
      rw [Nat.toDigits_of_lt_base small, List.head?_cons]
      exact fun same => digitChar_ne_zero digit small positive (Option.some.inj same)
  | digit front last small front_pos ih =>
      rw [← Nat.toDigits_append_toDigits (by decide) front_pos small,
        List.head?_append_of_ne_nil _ Nat.toDigits_ne_nil]
      exact ih front_pos

/-- The digits of a number have no zero in front. -/
theorem whole_toDigits (value : ℕ) : Whole (Nat.toDigits 10 value) where
  nonempty := Nat.toDigits_ne_nil
  every := isDigit_toDigits
  leading zero := by
    rcases value.eq_zero_or_pos with rfl | positive
    · rfl
    · exact absurd zero (head?_toDigits positive)

/-- The digits of a number, with zeros in front up to a number of places. -/
def padded (places value : ℕ) : List Char :=
  List.replicate (places - (Nat.toDigits 10 value).length) '0' ++ Nat.toDigits 10 value

theorem isDigit_padded {places value : ℕ} :
    ∀ digit ∈ padded places value, digit.isDigit = true := by
  intro digit member
  rcases List.mem_append.mp member with zero | rest
  · rw [List.eq_of_mem_replicate zero]
    rfl
  · exact isDigit_toDigits digit rest

theorem ofDigitChars_padded (places value : ℕ) :
    Nat.ofDigitChars 10 (padded places value) 0 = value := by
  rw [padded, Nat.ofDigitChars_append, Nat.ofDigitChars_replicate_zero, Nat.mul_zero,
    Nat.ofDigitChars_ten_toDigits]

theorem length_padded {places value : ℕ} (positive : 0 < places) (small : value < 10 ^ places) :
    (padded places value).length = places := by
  have short := (Nat.length_toDigits_le_iff (by decide) positive).mpr small
  rw [padded, List.length_append, List.length_replicate]
  omega

/-- What is left of digits without the zeros at the end. -/
def trimmed (digits : List Char) : List Char := digits.rdropWhile (· = '0')

/-- The zeros at the end do not count after the point. -/
theorem value_trimmed (digits : List Char) :
    (Nat.ofDigitChars 10 (trimmed digits) 0 : ℚ) / 10 ^ (trimmed digits).length =
      Nat.ofDigitChars 10 digits 0 / 10 ^ digits.length := by
  have zeros : digits.rtakeWhile (· = '0') =
      List.replicate (digits.rtakeWhile (· = '0')).length '0' :=
    List.eq_replicate_of_mem fun digit member => by
      simpa using List.mem_rtakeWhile_imp member
  have split : trimmed digits ++ List.replicate (digits.rtakeWhile (· = '0')).length '0' =
      digits := by
    rw [← zeros]
    exact List.rdropWhile_append_rtakeWhile
  generalize (digits.rtakeWhile (· = '0')).length = count at split
  conv_rhs => rw [← split]
  rw [Nat.ofDigitChars_append, Nat.ofDigitChars_replicate_zero, List.length_append,
    List.length_replicate, pow_add, Nat.cast_mul, Nat.cast_pow, mul_comm, Nat.cast_ofNat]
  field_simp

/-! ## The numeral of a number of units -/

/-- `value` units of a tenth to the power of `places`. -/
def ofUnits (places value : ℕ) : String :=
  let fraction := trimmed (padded places (value % 10 ^ places))
  if fraction = [] then decimal (value / 10 ^ places : ℕ)
  else decimal (value / 10 ^ places : ℕ) ++ "." ++ String.ofList fraction

theorem fraction_trimmed {places value : ℕ} (positive : 0 < places) (small : value < 10 ^ places)
    (nonempty : trimmed (padded places value) ≠ []) :
    Fraction places (trimmed (padded places value)) where
  nonempty := nonempty
  short := by
    have le := (List.rdropWhile_prefix (· = '0') (padded places value)).length_le
    rwa [length_padded positive small] at le
  every digit member := isDigit_padded digit ((List.rdropWhile_prefix _ _).subset member)
  trailing zero := by
    have last := List.rdropWhile_last_not (· = '0') (padded places value) nonempty
    rw [List.getLast?_eq_some_getLast nonempty] at zero
    exact last (decide_eq_true (Option.some.inj zero))

/-- The two shapes of the numeral. -/
theorem toList_ofUnits (places value : ℕ) :
    (ofUnits places value).toList = Nat.toDigits 10 (value / 10 ^ places) ++
      if trimmed (padded places (value % 10 ^ places)) = [] then []
      else '.' :: trimmed (padded places (value % 10 ^ places)) := by
  rw [ofUnits]
  split
  · rw [toList_decimal_natCast, List.append_nil]
  · simp only [String.toList_append, toList_decimal_natCast, String.toList_ofList,
      List.append_assoc]
    rfl

theorem canonical_ofUnits {places : ℕ} (positive : 0 < places) (value : ℕ) :
    Canonical places (ofUnits places value) := by
  refine ⟨_, whole_toDigits (value / 10 ^ places), ?_⟩
  rw [toList_ofUnits]
  split
  · exact .inl (List.append_nil _)
  · next nonempty =>
      have small := Nat.mod_lt value (Nat.pow_pos (n := places) (by decide : 0 < 10))
      exact .inr ⟨_, fraction_trimmed positive small nonempty, rfl⟩

/-- The numeral stands for the units. -/
theorem parse_ofUnits {places : ℕ} (positive : 0 < places) (value : ℕ) :
    parse (ofUnits places value) = some (value / 10 ^ places : ℚ) := by
  have small := Nat.mod_lt value (Nat.pow_pos (n := places) (by decide : 0 < 10))
  have part := value_trimmed (padded places (value % 10 ^ places))
  rw [ofDigitChars_padded, length_padded positive small] at part
  have parts : (value / 10 ^ places : ℚ) =
      (value / 10 ^ places : ℕ) + (value % 10 ^ places : ℕ) / 10 ^ places := by
    have whole : (value : ℚ) =
        10 ^ places * (value / 10 ^ places : ℕ) + (value % 10 ^ places : ℕ) := by
      exact_mod_cast (Nat.div_add_mod value (10 ^ places)).symm
    calc (value / 10 ^ places : ℚ) =
          (10 ^ places * (value / 10 ^ places : ℕ) + (value % 10 ^ places : ℕ)) / 10 ^ places := by
            rw [← whole]
      _ = _ := by field_simp
  have shape := toList_ofUnits places value
  rw [parts, ← part]
  by_cases empty : trimmed (padded places (value % 10 ^ places)) = []
  · rw [if_pos empty, List.append_nil] at shape
    rw [parse_whole (whole_toDigits _) shape, Nat.ofDigitChars_ten_toDigits, empty,
      Nat.ofDigitChars_nil, Nat.cast_zero, zero_div, add_zero]
  · rw [if_neg empty] at shape
    rw [parse_fraction (whole_toDigits _) (fraction_trimmed positive small empty) shape,
      Nat.ofDigitChars_ten_toDigits]

/-- Different numbers of units have different numerals. -/
theorem ofUnits_injective {places : ℕ} (positive : 0 < places) :
    Function.Injective (ofUnits places) := by
  intro value value' same
  have read := congrArg parse same
  rw [parse_ofUnits positive, parse_ofUnits positive, Option.some_inj,
    div_left_inj' (by positivity)] at read
  exact_mod_cast read

end Numeral
