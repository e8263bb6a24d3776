/-!
Shortest decimals. A positive binary fraction `mantissa * 2 ^ exponent` stands for every real
that rounds to it; the shortest decimal is the one with the fewest digits among those reals,
and of two with equally few digits the nearer one, or the even one where both are as near. All
arithmetic is on natural numbers.
-/
namespace GitHistory.Decimal

/-- A decimal `digits * 10 ^ exponent`. -/
structure Scaled where
  digits : Nat
  exponent : Int
  deriving Repr, DecidableEq

/-- A positive binary fraction with the interval of reals that round to it, all over one
denominator. The ends belong to the interval when `closed`. -/
structure Rounded where
  low : Nat
  value : Nat
  high : Nat
  denominator : Nat
  closed : Bool

/-- Interval of a double with this mantissa and exponent. Below a power of two the
neighbouring doubles are twice as dense, unless the exponent is the smallest one. -/
def Rounded.ofBinary (mantissa : Nat) (exponent : Int) : Rounded :=
  let scale := Nat.pow 2 (exponent - 2).toNat
  let below := if mantissa = Nat.pow 2 52 ∧ exponent ≠ -1074 then 1 else 2
  { low := (4 * mantissa - below) * scale
    value := 4 * mantissa * scale
    high := (4 * mantissa + 2) * scale
    denominator := Nat.pow 2 (2 - exponent).toNat
    closed := mantissa % 2 == 0 }

/-- Number of decimal digits. -/
def digitCount (n : Nat) : Nat := (Nat.toDigits 10 n).length

/-- The exponent of the leading decimal digit of `numerator / denominator`. -/
def leadingExponent (numerator denominator : Nat) : Int :=
  let estimate : Int := digitCount numerator - digitCount denominator
  let reaches : Bool :=
    denominator * Nat.pow 10 estimate.toNat ≤ numerator * Nat.pow 10 (-estimate).toNat
  if reaches then estimate else estimate - 1

/-- Position of `digits * 10 ^ exponent` over the interval's denominator, as a fraction. -/
private def overDenominator (interval : Rounded) (decimal : Scaled) : Nat × Nat :=
  (decimal.digits * Nat.pow 10 decimal.exponent.toNat * interval.denominator,
    Nat.pow 10 (-decimal.exponent).toNat)

/-- Whether a decimal rounds to the fraction. -/
def Rounded.holds (interval : Rounded) (decimal : Scaled) : Bool :=
  let (numerator, scale) := overDenominator interval decimal
  if interval.closed then
    interval.low * scale ≤ numerator && numerator ≤ interval.high * scale
  else
    interval.low * scale < numerator && numerator < interval.high * scale

/-- The nearer of the two grid points around the value, with this many digits, if one of them
rounds to the value. -/
def Rounded.onGrid? (interval : Rounded) (leading : Int) (count : Nat) : Option Scaled :=
  let exponent := leading - (count - 1 : Nat)
  let floor := interval.value * Nat.pow 10 (-exponent).toNat /
    (interval.denominator * Nat.pow 10 exponent.toNat)
  let lower : Scaled := ⟨floor, exponent⟩
  let upper : Scaled := ⟨floor + 1, exponent⟩
  match interval.holds lower, interval.holds upper with
  | true, true =>
    let (above, scale) := overDenominator interval upper
    let (below, _) := overDenominator interval lower
    let toLower := interval.value * scale - below
    let toUpper := above - interval.value * scale
    if toLower < toUpper ∨ toLower = toUpper ∧ floor % 2 = 0 then some lower else some upper
  | true, false => some lower
  | false, true => some upper
  | false, false => none

/-- The shortest decimal of a positive binary fraction; 17 digits always suffice. -/
def shortest (mantissa : Nat) (exponent : Int) : Scaled :=
  let interval := Rounded.ofBinary mantissa exponent
  let leading := leadingExponent interval.value interval.denominator
  ((List.range 17).findSome? fun count => interval.onGrid? leading (count + 1)).getD ⟨0, 0⟩

end GitHistory.Decimal
