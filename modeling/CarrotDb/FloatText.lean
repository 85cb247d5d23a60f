import CarrotDb.Machine
import CarrotDb.Lib.Decimal

/-! Text of floating-point numbers: `std::stod`, `std::to_string` and streams
with a fixed precision, in the C locale and in the default rounding mode. A
double is a `Float`, which has a single not-a-number. -/
namespace CarrotDb.FloatText
open Decimal

/-- The exact value of a finite number: sign, mantissa and binary exponent. -/
def finiteParts (value : Float) : Option (Bool × Nat × Int) :=
  match value.toModel.unpack with
  | .zero sign => some (sign == .negative, 0, 0)
  | .finite sign mantissa exponent _ => some (sign == .negative, mantissa, exponent)
  | _ => none

/-- A power of a base, as the numerator and the denominator of a fraction. -/
def fractionPower (base : Nat) (exponent : Int) : Nat × Nat :=
  (base ^ exponent.toNat, base ^ (-exponent).toNat)

/-- `numerator / denominator`, rounded to the nearest integer, ties to even. -/
def roundHalfEven (numerator denominator : Nat) : Nat :=
  let quotient := numerator / denominator
  let twice := 2 * (numerator % denominator)
  if twice < denominator ∨ twice = denominator ∧ quotient % 2 = 0 then quotient else quotient + 1

/-- The conversion `%.<precision>f`. A `Float` has a single not-a-number, which
is printed without a sign. -/
def formatFixed (precision : Nat) (value : Float) : Bytes :=
  match finiteParts value with
  | some (negative, mantissa, exponent) =>
    let (up, down) := fractionPower 2 exponent
    let scaled := roundHalfEven (mantissa * up * 10 ^ precision) down
    let whole := toDecimal (scaled / 10 ^ precision)
    let fraction := toDecimal (scaled % 10 ^ precision)
    let padding := List.replicate (precision - fraction.length) 48
    (if negative then [45] else []) ++ whole ++ 46 :: (padding ++ fraction)
  | none =>
    if value.isNaN then ascii "nan" else if value < 0 then ascii "-inf" else ascii "inf"

/-- `std::to_string(double)`. -/
def doubleToString (value : Float) : Bytes := formatFixed 6 value

/-- The text of a number is one line. -/
theorem formatFixed_clean (precision : Nat) (value : Float) : 13 ∉ formatFixed precision value := by
  rw [formatFixed]
  split
  · dsimp only
    intro inside
    rcases List.mem_append.mp inside with front | behind
    · rcases List.mem_append.mp front with sign | whole
      · split at sign
        · exact absurd sign (by decide)
        · cases sign
      · exact not_mem_toDecimal (by decide) _ whole
    · rcases List.mem_cons.mp behind with point | fraction
      · exact absurd point (by decide)
      · rcases List.mem_append.mp fraction with zeros | digits
        · exact absurd (List.eq_of_mem_replicate zeros) (by decide)
        · exact not_mem_toDecimal (by decide) _ digits
  · split
    · decide
    · split <;> decide

/-- `isspace` in the C locale. -/
def isSpace (byte : UInt8) : Bool := byte == 32 || (9 ≤ byte && byte ≤ 13)

/-- The value of a hexadecimal digit. -/
def hexValue (byte : UInt8) : Option Nat :=
  if isDigit byte then some (digitValue byte)
  else if 97 ≤ byte ∧ byte ≤ 102 then some (byte.toNat - 87)
  else if 65 ≤ byte ∧ byte ≤ 70 then some (byte.toNat - 55)
  else none

/-- A digit of a number in the base of its notation. -/
def digitIn (hex : Bool) (byte : UInt8) : Option Nat :=
  if hex then hexValue byte else if isDigit byte then some (digitValue byte) else none

/-- A run of digits: how many, their value behind `value`, and the rest. -/
def readDigits (hex : Bool) : Bytes → (count value : Nat) → Nat × Nat × Bytes
  | [], count, value => (count, value, [])
  | byte :: rest, count, value =>
    match digitIn hex byte with
    | some digit => readDigits hex rest (count + 1) (value * (if hex then 16 else 10) + digit)
    | none => (count, value, byte :: rest)

/-- An exponent behind its marker; without a digit there is no exponent. -/
def readExponent (text : Bytes) : Int :=
  let (negative, digits) :=
    match text with
    | 45 :: rest => (true, rest)
    | 43 :: rest => (false, rest)
    | _ => (false, text)
  let (_, value, _) := readDigits false digits 0 0
  if negative then -(value : Int) else value

/-- Digits with an optional point and exponent: the digits read as one number
and the exponent of the base, 10 or 2. No digit at all is no number. -/
def readNumber (hex : Bool) (text : Bytes) : Option (Nat × Int) :=
  let (whole, value, rest) := readDigits hex text 0 0
  let (fraction, value, rest) :=
    match rest with
    | 46 :: rest => readDigits hex rest 0 value
    | _ => (0, value, rest)
  if whole + fraction = 0 then none
  else
    let exponent :=
      match rest with
      | marker :: rest =>
        if marker = (if hex then 112 else 101) ∨ marker = (if hex then 80 else 69) then
          readExponent rest
        else 0
      | [] => 0
    some (value, exponent - (if hex then 4 * fraction else fraction : Nat))

/-- A power of ten or two so far out that the nearest double is decided. -/
def magnitudeBound : Int := 2000

/-- The double nearest to `mantissa * base ^ exponent`, or `none` where
`strtod` reports `ERANGE`: for an overflow, and for an inexact result that is
below the normal range. -/
def nearest (hex : Bool) (mantissa : Nat) (exponent : Int) : Option Float :=
  if mantissa = 0 then some 0
  else
    let size : Int := if hex then mantissa.log2 + 1 else (toDecimal mantissa).length
    if size + exponent > magnitudeBound ∨ size + exponent < -magnitudeBound then none
    else
      let (up, down) := fractionPower (if hex then 2 else 10) exponent
      let result :=
        if hex then Float.ofScientific (mantissa * up * 5 ^ (-exponent).toNat) true (-exponent).toNat
        else Float.ofScientific mantissa (exponent < 0) exponent.natAbs
      match finiteParts result with
      | none => none
      | some (_, rounded, binary) =>
        let (roundedUp, roundedDown) := fractionPower 2 binary
        let exact := rounded * roundedUp * down = mantissa * up * roundedDown
        let tiny := mantissa * up * 2 ^ 1076 < (2 ^ 54 - 1) * down
        if tiny ∧ ¬ exact then none else some result

/-- Whether a text starts with a word, in any letter case. -/
def startsWith (word text : Bytes) : Bool :=
  (text.take word.length).map (fun byte => if 65 ≤ byte ∧ byte ≤ 90 then byte + 32 else byte) == word

/-- The number behind the sign, in any notation `strtod` reads. -/
def readMagnitude (text : Bytes) : Option Float :=
  if startsWith (ascii "inf") text then some (1 / 0)
  else if startsWith (ascii "nan") text then some (0 / 0)
  else if startsWith (ascii "0x") text then
    match readNumber true (text.drop 2) with
    | some (mantissa, exponent) => nearest true mantissa exponent
    | none => some 0
  else
    match readNumber false text with
    | some (mantissa, exponent) => nearest false mantissa exponent
    | none => none

/-- `std::stod`, `none` where it throws. What follows the number is ignored,
and so is everything behind a zero byte. -/
def stod (text : Bytes) : Option Float :=
  match (text.takeWhile (· ≠ 0)).dropWhile isSpace with
  | 45 :: rest => (readMagnitude rest).map fun magnitude => -magnitude
  | 43 :: rest => readMagnitude rest
  | text => readMagnitude text

/-! ## Conversion to integers -/

/-- A conversion to an integer type truncates; a value out of range has no
defined result. -/
def toInteger (low high : Int) (value : Float) : Exec Int :=
  match finiteParts value with
  | none => .error .undefinedBehaviour
  | some (negative, mantissa, exponent) =>
    let (up, down) := fractionPower 2 exponent
    let magnitude : Int := (mantissa * up / down : Nat)
    let truncated := if negative then -magnitude else magnitude
    if low ≤ truncated ∧ truncated ≤ high then .ok truncated else .error .undefinedBehaviour

end CarrotDb.FloatText
