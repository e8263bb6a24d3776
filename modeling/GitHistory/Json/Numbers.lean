import GitHistory.Json.Reader

/-!
Numbers. An integer that fits 64 bits stays exact. Any other number becomes a double: its
leading digits, as many as fit 64 bits, scaled by a power of ten.
-/
namespace GitHistory.Json

def takeDigits (text : List Char) : List Char × List Char :=
  (text.takeWhile isDigit, text.dropWhile isDigit)

def digitOf (c : Char) : Nat := c.toNat - '0'.toNat

/-- Takes digits into a significand below 2^64; returns it with the digits left over. -/
def significandFrom : Nat → List Char → Nat × List Char
  | n, [] => (n, [])
  | n, c :: rest =>
    let next := n * 10 + digitOf c
    if next < UInt64.size then significandFrom next rest else (n, c :: rest)

private def powerOfTen (n : Nat) : Float := Float.ofScientific 1 false n

/-- Scales by a power of ten in steps that a double can hold; nothing if the result is not
finite. -/
private def scaled : Nat → Float → Int → Option Float
  | 0, x, _ => some x
  | steps + 1, x, exponent =>
    if exponent.natAbs ≤ 308 then
      if 0 ≤ exponent then
        let y := x * powerOfTen exponent.natAbs
        if y.isInf then none else some y
      else some (x / powerOfTen exponent.natAbs)
    else if x == 0.0 then some x
    else if 0 ≤ exponent then none
    else scaled steps (x / powerOfTen 308) (exponent + 308)

private def doubleOf (negative : Bool) (significand : Nat) (exponent : Int)
    (rest : List Char) : Except Failure (Number × List Char) :=
  match scaled 8 (UInt64.ofNat significand).toFloat exponent with
  | some x => .ok (.double (if negative then -x else x), rest)
  | none => .error (.before rest .numberOutOfRange)

/-- Digits of an exponent up to the one that passes 2^31 - 1, if any does. -/
private def exponentFrom : Nat → List Char → Except (List Char) Nat
  | n, [] => .ok n
  | n, c :: rest =>
    let next := n * 10 + digitOf c
    if next < Nat.pow 2 31 then exponentFrom next rest else .error rest

/-- Behind the letter of an exponent. -/
private def exponentPart (negative : Bool) (significand : Nat) (exponent : Int)
    (text : List Char) : Except Failure (Number × List Char) :=
  let (down, text) :=
    match text with
    | '+' :: rest => (false, rest)
    | '-' :: rest => (true, rest)
    | rest => (false, rest)
  match takeDigits text with
  | ([], []) => .error (.before [] .endInValue)
  | ([], rest) => .error (.into 1 rest .invalidNumber)
  | (digits, rest) =>
    match exponentFrom 0 digits with
    | .ok n => doubleOf negative significand (if down then exponent - n else exponent + n) rest
    | .error more =>
      if significand ≠ 0 ∧ !down then .error (.before (more ++ rest) .numberOutOfRange)
      else doubleOf negative 0 0 rest

/-- Behind the last digit of the significand. -/
private def afterSignificand (negative : Bool) (significand : Nat) (exponent : Int) :
    List Char → Except Failure (Number × List Char)
  | 'e' :: rest => exponentPart negative significand exponent rest
  | 'E' :: rest => exponentPart negative significand exponent rest
  | rest => doubleOf negative significand exponent rest

/-- Behind the point. -/
private def fractionPart (negative : Bool) (significand : Nat) (exponent : Int)
    (text : List Char) : Except Failure (Number × List Char) :=
  match takeDigits text with
  | ([], rest) =>
    .error (.into 1 rest (if rest.isEmpty then .endInValue else .invalidNumber))
  | (digits, rest) =>
    let (more, left) := significandFrom significand digits
    afterSignificand negative more (exponent - (digits.length - left.length : Nat)) rest

/-- An integer as it is, if it fits. A negative one has to be above zero in size and at most
2^63; minus zero is a double. -/
def wholeNumber (negative : Bool) (n : Nat) (rest : List Char) :
    Except Failure (Number × List Char) :=
  if !negative then .ok (.count (UInt64.ofNat n), rest)
  else if 0 < n ∧ n ≤ Nat.pow 2 63 then .ok (.negative (-n), rest)
  else .ok (.double (-(UInt64.ofNat n).toFloat), rest)

/-- A number behind its sign. -/
def numberFrom (negative : Bool) (text : List Char) :
    Except Failure (Number × List Char) :=
  match takeDigits text with
  | ([], []) => .error (.before [] .endInValue)
  | ([], rest) => .error (.into 1 rest .invalidNumber)
  | ('0' :: second :: digits, rest) => .error (.into 1 (second :: digits ++ rest) .invalidNumber)
  | (digits, rest) =>
    let (significand, left) := significandFrom 0 digits
    match rest with
    | '.' :: after => fractionPart negative significand left.length after
    | 'e' :: after => exponentPart negative significand left.length after
    | 'E' :: after => exponentPart negative significand left.length after
    | rest =>
      if left.isEmpty then wholeNumber negative significand rest
      else doubleOf negative significand left.length rest

/-- Passes over the exponent of a number that nobody wants; `text` is behind its letter. -/
def skipExponent (text : List Char) : Except Failure (Unit × List Char) :=
  let text :=
    match text with
    | '+' :: rest => rest
    | '-' :: rest => rest
    | rest => rest
  match takeDigits text with
  | ([], rest) => .error (.into 1 rest .invalidNumber)
  | (_, rest) => .ok ((), rest)

def skipExponentOrEnd : List Char → Except Failure (Unit × List Char)
  | 'e' :: rest => skipExponent rest
  | 'E' :: rest => skipExponent rest
  | rest => .ok ((), rest)

/-- Passes over a number behind its sign; its size does not matter. -/
def skipNumberFrom (text : List Char) : Except Failure (Unit × List Char) :=
  match takeDigits text with
  | ([], rest) => .error (.into 1 rest .invalidNumber)
  | ('0' :: second :: digits, rest) => .error (.into 1 (second :: digits ++ rest) .invalidNumber)
  | (_, '.' :: after) =>
    match takeDigits after with
    | ([], rest) => .error (.into 1 rest .invalidNumber)
    | (_, rest) => skipExponentOrEnd rest
  | (_, rest) => skipExponentOrEnd rest

namespace Reader

/-- A number; the reader stands at its sign or first digit. -/
def number : Reader Number
  | '-' :: rest => numberFrom true rest
  | rest => numberFrom false rest

/-- Passes over a number. -/
def skipNumber : Reader Unit
  | '-' :: rest => skipNumberFrom rest
  | rest => skipNumberFrom rest

end Reader

end GitHistory.Json
