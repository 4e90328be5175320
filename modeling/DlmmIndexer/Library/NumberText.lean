import DlmmIndexer.Library.JavaScript

/-!
# Texts of numbers with digits after them

The operator `+` puts a text after the text of a number.  Read back, the result is at
least ten times the number, as far as doubles are exact.
-/

namespace JavaScript

/-- The digits of two natural numbers, one after the other, as a number. -/
theorem ofDigitChars_toDigits_append (left right : ℕ) :
    Nat.ofDigitChars 10 (Nat.toDigits 10 left ++ Nat.toDigits 10 right) 0 =
      10 ^ (Nat.toDigits 10 right).length * left + right := by
  rw [Nat.ofDigitChars_append, Nat.ofDigitChars_ten_toDigits,
    Nat.ofDigitChars_eq_ofDigitChars_zero, Nat.ofDigitChars_ten_toDigits]

/-- The texts of two natural numbers, one after the other. -/
theorem parseUnsigned_decimal_append (left right : ℕ) :
    parseUnsigned (decimal left ++ decimal right).toList =
      some (.ofInt (10 ^ (Nat.toDigits 10 right).length * left + right : ℕ)) := by
  rw [String.toList_append, toList_decimal_natCast, toList_decimal_natCast,
    parseUnsigned_digits (by simp), ofDigitChars_toDigits_append]
  intro digit member
  exact (List.mem_append.mp member).elim (isDigit_toDigits digit) (isDigit_toDigits digit)

namespace Number

/-- The number is at least the bound, as an integer or an infinity. -/
def AtLeast (bound : ℕ) : Number → Prop
  | .finite value => (bound : ℤ) ≤ value
  | .infinite negative => negative = false
  | .nan => False

theorem AtLeast.mono {number : Number} {bound smaller : ℕ} (atLeast : number.AtLeast bound)
    (le : smaller ≤ bound) : number.AtLeast smaller := by
  cases number with
  | finite value => exact (Int.ofNat_le.mpr le).trans atLeast
  | infinite negative => exact atLeast
  | nan => exact atLeast

theorem AtLeast.ne_finite {number : Number} {bound value : ℕ} (atLeast : number.AtLeast bound)
    (lt : value < bound) : number ≠ .finite value := by
  rintro rfl
  exact absurd (Int.ofNat_le.mp atLeast) (Nat.not_le_of_lt lt)

/-- Rounding to a double does not go below 2^53. -/
theorem atLeast_ofInt (value : ℕ) : (ofInt value).AtLeast (min value (2 ^ 53)) := by
  by_cases small : value < 2 ^ 53
  · rw [ofInt_of_lt (by rwa [Int.natAbs_natCast])]
    exact Int.ofNat_le.mpr (Nat.min_le_left _ _)
  · have rounded : 2 ^ 53 ≤ roundNat value := pow_le_roundNat (Nat.le_of_not_lt small)
    rw [ofInt]
    split
    · exact Int.ofNat_le.mpr ((Nat.min_le_right _ _).trans rounded)
    · exact decide_eq_false (Int.not_lt.mpr (Int.natCast_nonneg value))

/-- What prints as a double from 2^53 on is itself at least 2^53. -/
theorem le_shortest {value : ℕ} (large : 2 ^ 53 ≤ value) : 2 ^ 53 ≤ shortest value := by
  rw [shortest]
  cases found : List.find? (fun candidate => decide (roundNat candidate = value)) _ with
  | none => exact large
  | some candidate =>
      have rounds : roundNat candidate = value := by simpa using List.find?_some found
      change 2 ^ 53 ≤ candidate
      by_contra small
      rw [roundNat_of_lt (Nat.lt_of_not_le small)] at rounds
      exact small (rounds ▸ large)

/-! ### Exponent form -/

/-- The exponent form of a number: its first digit, the others up to the last that is not
zero, and how many digits follow the first. -/
theorem exponentForm_eq {value : ℕ} (positive : 0 < value) : ∃ digit fraction zeros,
    Nat.toDigits 10 value = digit :: fraction ++ List.replicate zeros '0' ∧
    (exponentForm value).toList = digit :: ((if fraction = [] then [] else '.' :: fraction) ++
      'e' :: '+' :: Nat.toDigits 10 (fraction.length + zeros)) := by
  have split := List.takeWhile_append_dropWhile (p := (· = '0'))
    (l := (Nat.toDigits 10 value).reverse)
  have zeros : (Nat.toDigits 10 value).reverse.takeWhile (· = '0') =
      List.replicate ((Nat.toDigits 10 value).reverse.takeWhile (· = '0')).length '0' :=
    List.eq_replicate_of_mem fun digit member => by
      simpa using List.mem_takeWhile_imp member
  have parts := congrArg List.reverse split
  rw [List.reverse_append, List.reverse_reverse, zeros, List.reverse_replicate] at parts
  have whole := congrArg List.length parts
  rw [exponentForm]
  cases significant : ((Nat.toDigits 10 value).reverse.dropWhile (· = '0')).reverse with
  | nil =>
      rw [significant, List.nil_append] at parts
      have read := congrArg (fun digits => Nat.ofDigitChars 10 digits 0) parts
      simp only [Nat.ofDigitChars_replicate_zero, Nat.ofDigitChars_ten_toDigits,
        Nat.mul_zero] at read
      omega
  | cons digit fraction =>
      rw [significant] at parts whole
      rw [List.length_append, List.length_cons, List.length_replicate] at whole
      refine ⟨digit, fraction, _, parts.symm, ?_⟩
      have exponent : (Nat.toDigits 10 value).length - 1 = fraction.length +
          ((Nat.toDigits 10 value).reverse.takeWhile (· = '0')).length := by omega
      rw [exponent]
      cases fraction <;> simp

/-- The exponent that a run of digits after `e+` spells. -/
theorem exponentOf_digits {digits : List Char} (nonempty : digits ≠ [])
    (every : ∀ digit ∈ digits, digit.isDigit = true) :
    exponentOf ('e' :: '+' :: digits) = Nat.ofDigitChars 10 digits 0 := by
  rw [exponentOf, if_pos (.inl rfl), leadingDigits, List.takeWhile_eq_self_iff.mpr every,
    readDigits, if_pos ⟨nonempty, List.all_eq_true.mpr every⟩, Option.getD_some]

/-- `parseFloat` on an exponent form. -/
theorem parseUnsigned_exponent {digit : Char} {fraction exponent : List Char}
    (whole : digit.isDigit = true) (places : ∀ digit ∈ fraction, digit.isDigit = true)
    (nonempty : exponent ≠ []) (every : ∀ digit ∈ exponent, digit.isDigit = true) :
    parseUnsigned (digit :: ((if fraction = [] then [] else '.' :: fraction) ++
        'e' :: '+' :: exponent)) =
      ofDecimal (digit :: fraction) fraction.length (Nat.ofDigitChars 10 exponent 0) := by
  have letter : Char.isDigit 'e' = false := rfl
  have point : Char.isDigit '.' = false := rfl
  by_cases none : fraction = []
  · subst none
    rw [if_pos rfl, List.nil_append, parseUnsigned, List.takeWhile_cons_of_pos whole,
      List.dropWhile_cons_of_pos whole, List.takeWhile_cons_of_neg (by simp [letter]),
      List.dropWhile_cons_of_neg (by simp [letter]), ← exponentOf_digits nonempty every]
    simp
  · have read : (fraction ++ 'e' :: '+' :: exponent).takeWhile Char.isDigit = fraction := by
      rw [List.takeWhile_append_of_pos places, List.takeWhile_cons_of_neg (by simp [letter]),
        List.append_nil]
    have left : (fraction ++ 'e' :: '+' :: exponent).dropWhile Char.isDigit =
        'e' :: '+' :: exponent := by
      rw [List.dropWhile_append_of_pos places, List.dropWhile_cons_of_neg (by simp [letter])]
    rw [if_neg none, List.cons_append, parseUnsigned, List.takeWhile_cons_of_pos whole,
      List.dropWhile_cons_of_pos whole, List.takeWhile_cons_of_neg (by simp [point]),
      List.dropWhile_cons_of_neg (by simp [point])]
    simp only [read, left, exponentOf_digits nonempty every]
    simp

/-- More digits after an exponent form make the exponent larger. -/
theorem parseUnsigned_exponentForm_append {value : ℕ} (positive : 0 < value) (more : ℕ) :
    ∃ read, value ≤ read ∧
      parseUnsigned (exponentForm value ++ decimal more).toList = some (.ofInt (read : ℕ)) := by
  obtain ⟨digit, fraction, zeros, digits, form⟩ := exponentForm_eq positive
  have every : ∀ digit' ∈ digit :: fraction, digit'.isDigit = true := fun digit' member =>
    isDigit_toDigits digit' (digits ▸ List.mem_append_left _ member)
  have text : (exponentForm value ++ decimal more).toList =
      digit :: ((if fraction = [] then [] else '.' :: fraction) ++ 'e' :: '+' ::
        (Nat.toDigits 10 (fraction.length + zeros) ++ Nat.toDigits 10 more)) := by
    rw [String.toList_append, form, toList_decimal_natCast]
    simp
  have grown : fraction.length + zeros ≤
      10 ^ (Nat.toDigits 10 more).length * (fraction.length + zeros) + more :=
    (Nat.le_mul_of_pos_left _ (by positivity)).trans (Nat.le_add_right _ _)
  have spelled : value = Nat.ofDigitChars 10 (digit :: fraction) 0 * 10 ^ zeros := by
    have read := congrArg (fun digits => Nat.ofDigitChars 10 digits 0) digits
    simp only [Nat.ofDigitChars_ten_toDigits] at read
    rw [read, Nat.ofDigitChars_append, Nat.ofDigitChars_replicate_zero, Nat.mul_comm]
  rw [text, parseUnsigned_exponent (every digit List.mem_cons_self)
    (fun digit' member => every digit' (List.mem_cons_of_mem _ member)) (by simp)
    (fun digit' member => (List.mem_append.mp member).elim (isDigit_toDigits digit')
      (isDigit_toDigits digit')), ofDigitChars_toDigits_append, ofDecimal_of_le _ (by omega)]
  refine ⟨_, ?_, rfl⟩
  rw [spelled]
  exact Nat.mul_le_mul_left _ (Nat.pow_le_pow_right (by decide) (by omega))

/-- The text of a nonnegative double and digits after it are read as an integer: at least
ten times the double, and the digits, as far as doubles are exact. -/
theorem parseUnsigned_unsignedText_append (value more : ℕ) :
    ∃ read, min (10 * value + more) (2 ^ 53) ≤ read ∧
      parseUnsigned (unsignedText value ++ decimal more).toList = some (.ofInt (read : ℕ)) := by
  have digits : 10 ≤ 10 ^ (Nat.toDigits 10 more).length :=
    Nat.le_self_pow Nat.length_toDigits_pos.ne' 10
  by_cases small : value < 2 ^ 53
  · rw [unsignedText_of_lt small, parseUnsigned_decimal_append]
    refine ⟨_, (Nat.min_le_left _ _).trans ?_, rfl⟩
    exact Nat.add_le_add_right (Nat.mul_le_mul_right _ digits) more
  · have large : 2 ^ 53 ≤ shortest value := le_shortest (Nat.le_of_not_lt small)
    rw [unsignedText]
    split
    · change ∃ read, _ ∧ parseUnsigned (decimal (shortest value) ++ decimal more).toList = _
      rw [parseUnsigned_decimal_append]
      refine ⟨_, (Nat.min_le_right _ _).trans (large.trans ?_), rfl⟩
      exact (Nat.le_mul_of_pos_left _ (by positivity)).trans (Nat.le_add_right _ _)
    · obtain ⟨read, le, parsed⟩ :=
        @parseUnsigned_exponentForm_append (shortest value) (by omega) more
      exact ⟨read, (Nat.min_le_right _ _).trans (large.trans le), parsed⟩

/-- The text of a nonnegative double starts with a digit. -/
theorem exists_toList_unsignedText (value : ℕ) : ∃ first rest,
    (unsignedText value).toList = first :: rest ∧ first.isDigit = true := by
  rw [unsignedText]
  split
  · obtain ⟨first, rest, shape, isDigit⟩ := toDigits_eq_cons (shortest value)
    exact ⟨first, rest, (toList_decimal_natCast _).trans shape, isDigit⟩
  · obtain ⟨digit, fraction, zeros, digits, form⟩ := @exponentForm_eq (shortest value) (by omega)
    have first : digit ∈ Nat.toDigits 10 (shortest value) := by
      rw [digits]
      exact List.mem_cons_self
    exact ⟨digit, _, form, isDigit_toDigits digit first⟩

/-- What the text of a number with the digits of another after it is read as. -/
def append (number : Number) (more : ℕ) : Number :=
  (parseFloat (number.toString ++ decimal more)).getD .nan

theorem parseFloat_unsignedText_append (value more : ℕ) :
    parseFloat (unsignedText value ++ decimal more) =
      parseUnsigned (unsignedText value ++ decimal more).toList := by
  obtain ⟨first, rest, shape, isDigit⟩ := exists_toList_unsignedText value
  exact parseFloat_of_digit (by rw [String.toList_append, shape, List.cons_append]) isDigit

/-- Such a text always has a value. -/
theorem parseFloat_append (number : Number) (more : ℕ) :
    parseFloat (number.toString ++ decimal more) = some (number.append more) := by
  have valued : ∃ read, parseFloat (number.toString ++ decimal more) = some read := by
    cases number with
    | nan | infinite negative =>
        try cases negative
        all_goals
          rw [parseFloat, String.toList_append]
          exact ⟨_, rfl⟩
    | finite value =>
        cases value with
        | ofNat value =>
            obtain ⟨read, -, parsed⟩ := parseUnsigned_unsignedText_append value more
            exact ⟨_, (parseFloat_unsignedText_append value more).trans parsed⟩
        | negSucc value =>
            obtain ⟨read, -, parsed⟩ := parseUnsigned_unsignedText_append (value + 1) more
            have signed : ("-" ++ unsignedText (value + 1) ++ decimal more).toList =
                '-' :: (unsignedText (value + 1) ++ decimal more).toList := by
              simp
            refine ⟨(Number.ofInt read).neg, ?_⟩
            rw [parseFloat, Number.toString, signed]
            exact congrArg (Option.map neg) parsed
  obtain ⟨read, parsed⟩ := valued
  rw [append, parsed, Option.getD_some]

/-- A number and a text of digits after it: at least ten times the number, and the
digits, as far as doubles are exact. -/
theorem atLeast_append {number : Number} {bound : ℕ} (atLeast : number.AtLeast bound)
    (more : ℕ) : (number.append more).AtLeast (min (10 * bound + more) (2 ^ 53)) := by
  cases number with
  | nan => exact atLeast.elim
  | infinite negative =>
      cases atLeast
      rw [append, parseFloat, String.toList_append]
      exact rfl
  | finite value =>
      obtain ⟨value, rfl⟩ := Int.eq_ofNat_of_zero_le ((Int.natCast_nonneg bound).trans atLeast)
      have le : bound ≤ value := Int.ofNat_le.mp atLeast
      obtain ⟨read, large, parsed⟩ := parseUnsigned_unsignedText_append value more
      have read_eq : (finite value).append more = .ofInt (read : ℕ) := by
        rw [append]
        change (parseFloat (unsignedText value ++ decimal more)).getD .nan = _
        rw [parseFloat_unsignedText_append, parsed, Option.getD_some]
      rw [read_eq]
      exact (atLeast_ofInt read).mono (by omega)

end Number

end JavaScript
