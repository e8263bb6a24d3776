/-!
Decimal numerals for 64-bit counts: an optional plus sign, then one or more ASCII digits whose
value is below 2^64. Leading zeros are allowed, everything else is refused.
-/
namespace GitHistory.Text

/-- Value of an ASCII digit. -/
def digitValue? (c : Char) : Option Nat :=
  if '0' ≤ c ∧ c ≤ '9' then some (c.toNat - '0'.toNat) else none

/-- Value of a text of ASCII digits; the empty text has none. -/
def digits? : List Char → Option Nat
  | [] => none
  | first :: rest =>
    (first :: rest).foldl
      (fun value c => value.bind fun n => (digitValue? c).map fun d => n * 10 + d) (some 0)

/-- Reads a count. -/
def readCount? (text : List Char) : Option UInt64 :=
  let digits :=
    match text with
    | '+' :: rest => rest
    | _ => text
  (digits? digits).bind fun n => if n < UInt64.size then some (UInt64.ofNat n) else none

end GitHistory.Text
