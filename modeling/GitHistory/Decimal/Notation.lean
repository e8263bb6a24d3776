import GitHistory.Decimal.Shortest

/-!
Doubles as text: the shortest decimal that reads back, positional from 1e-5 up to below 1e16,
with an exponent elsewhere. A positional number keeps a fraction digit, an exponent its sign.
-/
namespace GitHistory.Decimal

/-- The smallest and largest leading exponent written without an exponent part. -/
def positionalExponents : Int × Int := (-5, 15)

private def dropTrailingZeros (digits : List Char) : List Char :=
  (digits.reverse.dropWhile (· == '0')).reverse

/-- Text of a positive decimal. -/
def Scaled.text (decimal : Scaled) : List Char :=
  let written := Nat.toDigits 10 decimal.digits
  let leading := decimal.exponent + (written.length - 1 : Nat)
  let digits := dropTrailingZeros written
  if positionalExponents.1 ≤ leading ∧ leading ≤ positionalExponents.2 then
    if leading < 0 then
      '0' :: '.' :: List.replicate ((-leading).toNat - 1) '0' ++ digits
    else
      let whole := leading.toNat + 1
      if digits.length ≤ whole then
        digits ++ List.replicate (whole - digits.length) '0' ++ ['.', '0']
      else digits.take whole ++ '.' :: digits.drop whole
  else
    let exponent := Nat.toDigits 10 leading.natAbs
    let mantissa :=
      match digits with
      | [] => []
      | [digit] => [digit]
      | first :: rest => first :: '.' :: rest
    mantissa ++ ['e', if leading < 0 then '-' else '+'] ++ exponent

/-- Text of a finite double. -/
def floatText (x : Float) : String :=
  let bits := x.toBits.toNat
  let sign := if bits < Nat.pow 2 63 then [] else ['-']
  let field : Nat := bits / Nat.pow 2 52 % Nat.pow 2 11
  let fraction : Nat := bits % Nat.pow 2 52
  let magnitude :=
    if field = 0 ∧ fraction = 0 then ['0', '.', '0']
    else if field = 0 then (shortest fraction (-1074)).text
    else (shortest (Nat.pow 2 52 + fraction) ((field : Int) - 1075)).text
  String.ofList (sign ++ magnitude)

end GitHistory.Decimal
