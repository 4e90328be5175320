import DlmmIndexer.Database
import DlmmIndexer.Library.Doubles

/-!
# Bin arithmetic

The parts of `BinMath` that decide what the processors store or whether they
throw: the price check of `getPriceFromId` over its Q64.64 integers, the addition
of decimal texts by way of doubles, and the exact `normalizeAmount`.
-/

namespace DlmmIndexer.BinMath

open JavaScript

/-- The Q64.64 scale factor. -/
def scale : ℕ := 2 ^ 64

def middleBinId : ℕ := 8388608

def maxBinStep : ℕ := 100

/-! ## Prices -/

/-- The loop of `powQ64`. -/
def powLoop (result currentBase exp : ℕ) : ℕ :=
  if exp = 0 then result
  else
    powLoop (if exp % 2 = 1 then result * currentBase / scale else result)
      (currentBase * currentBase / scale) (exp / 2)
termination_by exp
decreasing_by omega

/-- Powers of Q64.64 numbers by binary exponentiation. -/
def powQ64 (base exponent : ℕ) : ℕ :=
  if exponent = 0 then scale
  else if exponent = 1 then base
  else powLoop scale base exponent

/-- `getPriceFromId` before `q64ToFloat`: the price as a Q64.64 integer. -/
def getPriceFromId (binStep id : ℕ) : Except Failure ℕ :=
  if binStep = 0 ∨ maxBinStep < binStep then
    .error (.error ("Invalid bin step: " ++ decimal binStep))
  else
    let base := scale + binStep * scale / 10000
    if id = middleBinId then .ok scale
    else if middleBinId < id then .ok (powQ64 base (id - middleBinId))
    else .ok (scale * scale / powQ64 base (middleBinId - id))

/-! ## Addition of decimal texts -/

/-- `BigInt(Math.floor(value * Number(SCALE)))`; infinities and NaN have no BigInt. -/
def floatToQ64 : Number → Except JavaScript.Error ℤ
  | .finite value =>
      match Number.ofInt (value * 2 ^ 64) with
      | .finite scaled => .ok scaled
      | _ => .error .rangeError
  | _ => .error .rangeError

/-- `Number(q64Value) / Number(SCALE)`, on the multiples of the scale that adding
integers produces. -/
def q64ToFloat (q64Value : ℤ) : Number :=
  match Number.ofInt q64Value with
  | .finite value => .finite (value / 2 ^ 64)
  | other => other

/-- Add two decimal texts. -/
def add (a b : String) : Except JavaScript.Error String := do
  let aFloat ← readFloat a
  let bFloat ← readFloat b
  let aQ64 ← floatToQ64 aFloat
  let bQ64 ← floatToQ64 bFloat
  return (q64ToFloat (aQ64 + bQ64)).toString

theorem floatToQ64_finite {value : ℤ} (double : JavaScript.round value = value)
    (bound : value.natAbs ≤ 2 ^ 68) : floatToQ64 (.finite value) = .ok (value * 2 ^ 64) := by
  have scaled : (value * 2 ^ 64).natAbs ≤ 2 ^ 132 := by
    rw [Int.natAbs_mul]
    exact Nat.mul_le_mul_right (2 ^ 64) bound
  rw [floatToQ64, Number.ofInt_of_le (by decide) (by decide) scaled, round_mul_two_pow, double]

/-- The addition of texts rounds once more after it has read both. -/
theorem add_of_read {a b : String} {left right : ℤ} (readA : parseFloat a = some (.finite left))
    (readB : parseFloat b = some (.finite right)) (leftDouble : JavaScript.round left = left)
    (rightDouble : JavaScript.round right = right) (leftBound : left.natAbs ≤ 2 ^ 65)
    (rightBound : right.natAbs ≤ 2 ^ 65) :
    add a b = .ok (Number.finite (JavaScript.round (left + right))).toString := by
  have scaled : left * 2 ^ 64 + right * 2 ^ 64 = (left + right) * 2 ^ 64 := by ring
  have sum : (left + right).natAbs ≤ 2 ^ 66 := by omega
  have bound : ((left + right) * 2 ^ 64).natAbs ≤ 2 ^ 130 := by
    rw [Int.natAbs_mul]
    exact Nat.mul_le_mul_right (2 ^ 64) sum
  have back : JavaScript.round (left + right) * 2 ^ 64 / 2 ^ 64 = JavaScript.round (left + right) :=
    Int.mul_ediv_cancel _ (by decide)
  simp only [add, readFloat_eq_ok.mpr readA, readFloat_eq_ok.mpr readB,
    floatToQ64_finite leftDouble (by omega), floatToQ64_finite rightDouble (by omega), bind,
    Except.bind, pure, Except.pure, q64ToFloat, scaled,
    Number.ofInt_of_le (by decide) (by decide) bound, round_mul_two_pow, back]

/-- Below 2^53 the addition of texts is exact. -/
theorem add_decimal {left right : ℤ} (leftSmall : left.natAbs < 2 ^ 53)
    (rightSmall : right.natAbs < 2 ^ 53) (sumSmall : (left + right).natAbs < 2 ^ 53) :
    add (decimal left) (decimal right) = .ok (decimal (left + right)) := by
  rw [add_of_read (Number.parseFloat_decimal leftSmall) (Number.parseFloat_decimal rightSmall)
    (round_of_lt leftSmall) (round_of_lt rightSmall) (by omega) (by omega), round_of_lt sumSmall,
    Number.toString_finite sumSmall]

/-! ## Normalized amounts -/

/-- `padStart(18, '0')` -/
def padStart (digits : List Char) : List Char :=
  List.replicate (18 - digits.length) '0' ++ digits

/-- `replace(/0+$/, '')` -/
def trimZeros (digits : List Char) : List Char :=
  (digits.reverse.dropWhile (· = '0')).reverse

/-- An amount divided by a power of ten, with at most 18 decimal places. -/
def normalizeAmount (amount decimals : ℕ) : String :=
  let divisor := 10 ^ decimals
  let wholePart : ℕ := amount / divisor
  let remainder := amount % divisor
  if remainder = 0 then decimal wholePart
  else
    let fractionalPart : ℕ := remainder * 10 ^ 18 / divisor
    let fractional := trimZeros (padStart (decimal fractionalPart).toList)
    if fractional = [] then decimal wholePart
    else decimal wholePart ++ "." ++ String.ofList fractional

end DlmmIndexer.BinMath
