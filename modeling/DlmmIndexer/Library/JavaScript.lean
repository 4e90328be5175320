import Mathlib.Data.List.TakeWhile
import Mathlib.Algebra.Order.Group.Unbundled.Int
import Mathlib.Tactic.Ring
import Mathlib.Tactic.Linarith

/-!
# JavaScript integers, numbers and decimal texts

The fragment of JavaScript's numeric semantics that programs use when they keep
integers as decimal texts: `BigInt` and its text form, doubles whose value is an
integer, `parseFloat`, `Number.prototype.toString`, and the rules for `+`, `-` and
unary `-` on values of mixed types.

A double with an integer value is that integer; computing with doubles rounds the
exact result to 53 significant bits, ties to even.  Decimal texts have a sign, digits, a
fraction and an exponent; where what they spell is no integer they have no value here.
-/

namespace JavaScript

/-- The errors that the numeric operations throw.  `fractional` is none of the language's: a
computation that meets a number that is no integer ends with it, as it has no value here. -/
inductive Error where
  | typeError
  | syntaxError
  | rangeError
  | fractional
  deriving DecidableEq, Repr

/-! ## BigInt -/

/-- A nonempty run of decimal digits as a number. -/
def readDigits (digits : List Char) : Option ℕ :=
  if digits ≠ [] ∧ digits.all Char.isDigit = true then some (Nat.ofDigitChars 10 digits 0)
  else none

/-- `BigInt.prototype.toString`. -/
def decimal (value : ℤ) : String := toString value

/-- `BigInt(text)` on decimal texts; `none` is the `SyntaxError`. -/
def bigInt (text : String) : Option ℤ :=
  match text.toList with
  | [] => some 0
  | '-' :: digits => (readDigits digits).map fun (value : ℕ) => -(value : ℤ)
  | digits => (readDigits digits).map fun (value : ℕ) => (value : ℤ)

/-- The integer a decimal text stands for, and 0 for other texts. -/
def amount (text : String) : ℤ := (bigInt text).getD 0

theorem readDigits_toDigits (value : ℕ) : readDigits (Nat.toDigits 10 value) = some value := by
  have digits : (Nat.toDigits 10 value).all Char.isDigit = true := by
    rw [List.all_eq_true]
    exact fun digit member =>
      Nat.isDigit_of_mem_toDigits (by decide) (by decide) member
  have nonempty : Nat.toDigits 10 value ≠ [] := by simp
  rw [readDigits, if_pos ⟨nonempty, digits⟩, Nat.ofDigitChars_ten_toDigits]

/-- A digit list starts with neither a sign nor anything else but a digit. -/
theorem toDigits_eq_cons (value : ℕ) :
    ∃ digit rest, Nat.toDigits 10 value = digit :: rest ∧ digit.isDigit = true := by
  cases shape : Nat.toDigits 10 value with
  | nil => simp at shape
  | cons digit rest =>
      exact ⟨digit, rest, rfl, Nat.isDigit_of_mem_toDigits (b := 10) (n := value)
        (by decide) (by decide) (by simp [shape])⟩

theorem toList_decimal_natCast (value : ℕ) :
    (decimal value).toList = Nat.toDigits 10 value := by
  change (Nat.repr value).toList = _
  exact Nat.toList_repr

theorem toList_decimal_neg (value : ℕ) (positive : 0 < value) :
    (decimal (-(value : ℤ))).toList = '-' :: Nat.toDigits 10 value := by
  obtain ⟨previous, rfl⟩ : ∃ previous, value = previous + 1 := ⟨value - 1, by omega⟩
  change ("-" ++ Nat.repr (previous + 1)).toList = _
  rw [String.toList_append, Nat.toList_repr]
  rfl

/-- Reading back the text form of an integer gives the integer. -/
@[simp] theorem bigInt_decimal (value : ℤ) : bigInt (decimal value) = some value := by
  rw [bigInt]
  rcases Int.natAbs_eq value with nonneg | neg
  · rw [nonneg, toList_decimal_natCast]
    obtain ⟨digit, rest, shape, isDigit⟩ := toDigits_eq_cons value.natAbs
    have read := readDigits_toDigits value.natAbs
    rw [shape] at read ⊢
    split
    next nothing => cases nothing
    next sign => cases sign; cases isDigit
    · rw [read]; rfl
  · by_cases zero : value.natAbs = 0
    · obtain rfl : value = 0 := by omega
      rfl
    · rw [neg, toList_decimal_neg _ (by omega)]
      change (readDigits (Nat.toDigits 10 value.natAbs)).map (fun (digits : ℕ) => -(digits : ℤ)) = _
      rw [readDigits_toDigits]
      rfl

@[simp] theorem amount_decimal (value : ℤ) : amount (decimal value) = value := by
  simp [amount]

@[simp] theorem amount_zero : amount "0" = 0 := by decide

theorem decimal_amount_zero : decimal (amount "0") = "0" := by
  rw [amount_zero]
  rfl

theorem decimal_injective {left right : ℤ} (equal : decimal left = decimal right) :
    left = right := by
  rw [← amount_decimal left, equal, amount_decimal]

/-! ## Doubles with an integer value -/

/-- A natural number rounded to 53 significant bits, ties to even. -/
def roundNat (value : ℕ) : ℕ :=
  if value < 2 ^ 53 then value
  else
    let unit := 2 ^ (Nat.log2 value - 52)
    let quotient := value / unit
    let remainder := value % unit
    if 2 * remainder < unit ∨ (2 * remainder = unit ∧ quotient % 2 = 0) then quotient * unit
    else (quotient + 1) * unit

/-- An integer rounded to the nearest double. -/
def round : ℤ → ℤ
  | .ofNat value => (roundNat value : ℤ)
  | .negSucc value => -(roundNat (value + 1) : ℤ)

theorem roundNat_of_lt {value : ℕ} (small : value < 2 ^ 53) : roundNat value = value := by
  rw [roundNat, if_pos small]

/-- Rounding does not cross a power of two downwards. -/
theorem pow_le_roundNat {value bits : ℕ} (large : 2 ^ bits ≤ value) :
    2 ^ bits ≤ roundNat value := by
  by_cases small : value < 2 ^ 53
  · rwa [roundNat_of_lt small]
  have nonzero : value ≠ 0 := by omega
  have wide : 53 ≤ Nat.log2 value := (Nat.le_log2 nonzero).mpr (Nat.le_of_not_lt small)
  have split : 2 ^ Nat.log2 value = 2 ^ 52 * 2 ^ (Nat.log2 value - 52) := by
    rw [← Nat.pow_add]; congr 1; omega
  have quotient : 2 ^ 52 ≤ value / 2 ^ (Nat.log2 value - 52) := by
    rw [Nat.le_div_iff_mul_le (by positivity), ← split]
    exact Nat.log2_self_le nonzero
  have product : 2 ^ bits ≤
      value / 2 ^ (Nat.log2 value - 52) * 2 ^ (Nat.log2 value - 52) :=
    calc 2 ^ bits ≤ 2 ^ Nat.log2 value :=
          Nat.pow_le_pow_right (by decide) ((Nat.le_log2 nonzero).mpr large)
      _ = 2 ^ 52 * 2 ^ (Nat.log2 value - 52) := split
      _ ≤ _ := Nat.mul_le_mul_right _ quotient
  rw [roundNat, if_neg small]
  dsimp only
  split
  · exact product
  · exact product.trans (Nat.mul_le_mul_right _ (Nat.le_succ _))

/-- A 53-bit value keeps its exact value under scaling by a power of two. -/
theorem roundNat_mul_pow {value : ℕ} (small : value < 2 ^ 53) (bits : ℕ) :
    roundNat (value * 2 ^ bits) = value * 2 ^ bits := by
  by_cases below : value * 2 ^ bits < 2 ^ 53
  · exact roundNat_of_lt below
  have nonzero : value * 2 ^ bits ≠ 0 := by omega
  have upper : Nat.log2 (value * 2 ^ bits) < 53 + bits := by
    rw [Nat.log2_lt nonzero, Nat.pow_add]
    exact Nat.mul_lt_mul_of_pos_right small (by positivity)
  have divides : 2 ^ (Nat.log2 (value * 2 ^ bits) - 52) ∣ value * 2 ^ bits :=
    Dvd.dvd.mul_left (Nat.pow_dvd_pow 2 (by omega)) value
  rw [roundNat, if_neg below]
  dsimp only
  rw [Nat.mod_eq_zero_of_dvd divides, if_pos (.inl (by simp)),
    Nat.div_mul_cancel divides]

theorem round_of_lt {value : ℤ} (small : value.natAbs < 2 ^ 53) : round value = value := by
  cases value with
  | ofNat value => exact congrArg Nat.cast (roundNat_of_lt small)
  | negSucc value =>
      have bound : value + 1 < 2 ^ 53 := small
      rw [round, roundNat_of_lt bound]
      rfl

/-- The numbers that integer arithmetic on doubles produces. -/
inductive Number where
  | finite (value : ℤ)
  | infinite (negative : Bool)
  | nan
  deriving DecidableEq, Repr

namespace Number

/-- The double nearest an integer; from 2^1024 on it is infinite. -/
def ofInt (value : ℤ) : Number :=
  if Nat.log2 (round value).natAbs < 1024 then .finite (round value)
  else .infinite (decide (value < 0))

theorem ofInt_of_lt {value : ℤ} (small : value.natAbs < 2 ^ 53) : ofInt value = .finite value := by
  have bits : Nat.log2 value.natAbs < 1024 := by
    by_cases zero : value.natAbs = 0
    · simp [zero]
    · exact ((Nat.log2_lt zero).mpr small).trans (by decide)
  rw [ofInt, round_of_lt small, if_pos bits]

/-- Subtraction of doubles. -/
def sub : Number → Number → Number
  | .finite left, .finite right => ofInt (left - right)
  | .nan, _ => .nan
  | _, .nan => .nan
  | .infinite left, .infinite right => if left = right then .nan else .infinite left
  | .infinite left, .finite _ => .infinite left
  | .finite _, .infinite right => .infinite !right

/-- Addition of doubles. -/
def add : Number → Number → Number
  | .finite left, .finite right => ofInt (left + right)
  | .nan, _ => .nan
  | _, .nan => .nan
  | .infinite left, .infinite right => if left = right then .infinite left else .nan
  | .infinite left, .finite _ => .infinite left
  | .finite _, .infinite right => .infinite right

/-- Negation of doubles. -/
def neg : Number → Number
  | .finite value => .finite (-value)
  | .infinite negative => .infinite !negative
  | .nan => .nan

/-! ### Printing -/

/-- The number nearest `value` that has `count` significant digits, out of `width`. -/
def withDigits (value width count : ℕ) : ℕ :=
  let scale := 10 ^ (width - count)
  (2 * value + scale) / (2 * scale) * scale

/-- The numbers with `count` significant digits on both sides of `value`, the nearer one
first. -/
def neighbours (value width count : ℕ) : List ℕ :=
  let scale := 10 ^ (width - count)
  let below := value / scale * scale
  [withDigits value width count, below, below + scale]

/-- The decimal number with the fewest digits that still rounds to the double.  At a power
of two the doubles below are closer together than those above, so the nearest number of a
length may round elsewhere while the next one rounds to the double. -/
def shortest (value : ℕ) : ℕ :=
  let width := (Nat.toDigits 10 value).length
  let candidates := (List.range width).flatMap fun count => neighbours value width (count + 1)
  (candidates.find? fun candidate => decide (roundNat candidate = value)).getD value

/-- The digits of a number from 10^21 on, in exponent form. -/
def exponentForm (value : ℕ) : String :=
  let digits := Nat.toDigits 10 value
  let significant := (digits.reverse.dropWhile (· = '0')).reverse
  let exponent := toString (digits.length - 1)
  match significant with
  | [] => "0"
  | [digit] => String.ofList [digit] ++ "e+" ++ exponent
  | digit :: fraction =>
      String.ofList [digit] ++ "." ++ String.ofList fraction ++ "e+" ++ exponent

/-- The text of a nonnegative double. -/
def unsignedText (value : ℕ) : String :=
  if shortest value < 10 ^ 21 then toString (shortest value) else exponentForm (shortest value)

/-- `Number.prototype.toString`. -/
protected def toString : Number → String
  | .finite (.ofNat value) => unsignedText value
  | .finite (.negSucc value) => "-" ++ unsignedText (value + 1)
  | .infinite false => "Infinity"
  | .infinite true => "-Infinity"
  | .nan => "NaN"

/-- Below 2^53 a double prints all of its digits. -/
theorem shortest_of_lt {value : ℕ} (small : value < 2 ^ 53) : shortest value = value := by
  rw [shortest]
  cases found : List.find? (fun candidate => decide (roundNat candidate = value)) _ with
  | none => rfl
  | some candidate =>
      have rounds : roundNat candidate = value := by simpa using List.find?_some found
      have bound : candidate < 2 ^ 53 := by
        by_contra large
        have := pow_le_roundNat (Nat.le_of_not_lt large)
        omega
      rw [roundNat_of_lt bound] at rounds
      exact rounds

theorem unsignedText_of_lt {value : ℕ} (small : value < 2 ^ 53) :
    unsignedText value = decimal value := by
  have bound : (2 : ℕ) ^ 53 < 10 ^ 21 := by decide
  rw [unsignedText, shortest_of_lt small, if_pos (by omega)]
  rfl

/-- Below 2^53 a double has the text of the integer. -/
theorem toString_finite {value : ℤ} (small : value.natAbs < 2 ^ 53) :
    (finite value).toString = decimal value := by
  cases value with
  | ofNat value => exact unsignedText_of_lt small
  | negSucc value =>
      have bound : value + 1 < 2 ^ 53 := small
      rw [Number.toString, unsignedText_of_lt bound]
      rfl

end Number

/-! ## Reading numbers from texts -/

/-- The number with the given digits, of which `places` follow the point, and the
given decimal exponent; `none` where it is no integer. -/
def ofDecimal (digits : List Char) (places : ℕ) (exponent : ℤ) : Option Number :=
  let numerator := Nat.ofDigitChars 10 digits 0 * 10 ^ exponent.toNat
  let denominator := 10 ^ (places + (-exponent).toNat)
  if denominator ∣ numerator then some (.ofInt (numerator / denominator : ℕ)) else none

/-- The digits at the head of a text as a number, 0 when there are none. -/
def leadingDigits (chars : List Char) : ℕ := (readDigits (chars.takeWhile Char.isDigit)).getD 0

/-- The decimal exponent at the head of a text, 0 when there is none. -/
def exponentOf : List Char → ℤ
  | letter :: rest =>
      if letter = 'e' ∨ letter = 'E' then
        match rest with
        | '+' :: digits => leadingDigits digits
        | '-' :: digits => -leadingDigits digits
        | digits => leadingDigits digits
      else 0
  | [] => 0

/-- `parseFloat` on a text without sign. -/
def parseUnsigned (chars : List Char) : Option Number :=
  let whole := chars.takeWhile Char.isDigit
  match chars.dropWhile Char.isDigit with
  | '.' :: tail =>
      let fraction := tail.takeWhile Char.isDigit
      if whole ++ fraction = [] then some .nan
      else ofDecimal (whole ++ fraction) fraction.length
        (exponentOf (tail.dropWhile Char.isDigit))
  | rest =>
      if whole = [] then
        some (if "Infinity".toList.isPrefixOf rest then .infinite false else .nan)
      else ofDecimal whole 0 (exponentOf rest)

/-- `parseFloat`, where its value is an integer, an infinity or NaN. -/
def parseFloat (text : String) : Option Number :=
  match text.toList with
  | '-' :: rest => (parseUnsigned rest).map Number.neg
  | '+' :: rest => parseUnsigned rest
  | chars => parseUnsigned chars

/-- `parseFloat` in a computation. -/
def readFloat (text : String) : Except Error Number :=
  (parseFloat text).elim (.error .fractional) .ok

theorem readFloat_eq_ok {text : String} {number : Number} :
    readFloat text = .ok number ↔ parseFloat text = some number := by
  rw [readFloat]
  cases parseFloat text with
  | none => exact ⟨nofun, nofun⟩
  | some read => exact ⟨fun same => congrArg some (Except.ok.inj same), fun same =>
      congrArg Except.ok (Option.some.inj same)⟩

/-- An exponent that is not below the places makes an integer. -/
theorem ofDecimal_of_le (digits : List Char) {places exponent : ℕ} (le : places ≤ exponent) :
    ofDecimal digits places exponent =
      some (.ofInt (Nat.ofDigitChars 10 digits 0 * 10 ^ (exponent - places) : ℕ)) := by
  have split : Nat.ofDigitChars 10 digits 0 * 10 ^ exponent =
      Nat.ofDigitChars 10 digits 0 * 10 ^ (exponent - places) * 10 ^ places := by
    rw [Nat.mul_assoc, ← Nat.pow_add, Nat.sub_add_cancel le]
  have none : (-(exponent : ℤ)).toNat = 0 := by omega
  simp only [ofDecimal, Int.toNat_natCast, none, Nat.add_zero]
  rw [split, if_pos (Nat.dvd_mul_left _ _), Nat.mul_div_cancel _ (by positivity)]

/-- A nonempty run of digits is the integer it spells. -/
theorem parseUnsigned_digits {digits : List Char} (nonempty : digits ≠ [])
    (every : ∀ digit ∈ digits, digit.isDigit = true) :
    parseUnsigned digits = some (.ofInt (Nat.ofDigitChars 10 digits 0)) := by
  have whole : digits.takeWhile Char.isDigit = digits := List.takeWhile_eq_self_iff.mpr every
  have rest : digits.dropWhile Char.isDigit = [] := List.dropWhile_eq_nil_iff.mpr every
  have shape := @ofDecimal_of_le digits 0 0 le_rfl
  rw [parseUnsigned, rest, whole]
  simpa [nonempty, exponentOf] using shape

/-- A text that starts with a digit is read without a sign. -/
theorem parseFloat_of_digit {text : String} {first : Char} {rest : List Char}
    (shape : text.toList = first :: rest) (isDigit : first.isDigit = true) :
    parseFloat text = parseUnsigned text.toList := by
  rw [parseFloat, shape]
  split
  next sign =>
    obtain rfl := (List.cons.inj sign).1
    cases isDigit
  next sign =>
    obtain rfl := (List.cons.inj sign).1
    cases isDigit
  · rfl

theorem isDigit_toDigits {value : ℕ} : ∀ digit ∈ Nat.toDigits 10 value, digit.isDigit = true :=
  fun _ member => Nat.isDigit_of_mem_toDigits (by decide) (by decide) member

theorem parseUnsigned_toDigits (value : ℕ) :
    parseUnsigned (Nat.toDigits 10 value) = some (.ofInt value) := by
  rw [parseUnsigned_digits (by simp) isDigit_toDigits, Nat.ofDigitChars_ten_toDigits]

/-! ## Operators on values of mixed types -/

/-- The values that meet the operators: BigInts, numbers, texts, `undefined`. -/
inductive Value where
  | undefined
  | number (value : Number)
  | bigint (value : ℤ)
  | string (text : String)
  deriving DecidableEq, Repr

namespace Value

/-- The integer of a BigInt, and 0 for other values. -/
def integer : Value → ℤ
  | .bigint value => value
  | _ => 0

/-- The `ToNumber` conversion; a BigInt has none. -/
def toNumber : Value → Except Error Number
  | .undefined => .ok .nan
  | .number value => .ok value
  | .bigint _ => .error .typeError
  | .string text => .ok ((bigInt text).elim .nan .ofInt)

/-- `String(value)`. -/
protected def toString : Value → String
  | .undefined => "undefined"
  | .number value => value.toString
  | .bigint value => decimal value
  | .string text => text

/-- The operator `-`.  A BigInt only mixes with a BigInt. -/
def sub : Value → Value → Except Error Value
  | .bigint left, .bigint right => .ok (.bigint (left - right))
  | left, right => do
      let left ← left.toNumber
      let right ← right.toNumber
      return .number (left.sub right)

/-- The operator `+`, which concatenates as soon as one side is a text. -/
def add : Value → Value → Except Error Value
  | .bigint left, .bigint right => .ok (.bigint (left + right))
  | .string left, right => .ok (.string (left ++ right.toString))
  | left, .string right => .ok (.string (left.toString ++ right))
  | left, right => do
      let left ← left.toNumber
      let right ← right.toNumber
      return .number (left.add right)

/-- The unary operator `-`. -/
def neg : Value → Except Error Value
  | .bigint value => .ok (.bigint (-value))
  | value => do
      let value ← value.toNumber
      return .number value.neg

end Value

end JavaScript
