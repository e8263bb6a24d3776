import GitHistory.Time.Calendar
import GitHistory.Text.Utf8
import GitHistory.Text.Numeral

/-!
Moments with an offset from universal time, and their RFC 3339 form. A leap second is the
fifty-ninth second with a thousand million nanoseconds more.
-/
namespace GitHistory.Time

/-- Seconds since 1970-01-01T00:00:00Z, nanoseconds within the second, and the offset of local
time in seconds. -/
structure Timestamp where
  unix : Int
  nanos : Nat
  offset : Int
  deriving Repr, DecidableEq

def leapNanos : Nat := 1000000000

/-- At least `width` decimal digits. -/
def padded (width n : Nat) : List Char :=
  let digits := Nat.toDigits 10 n
  List.replicate (width - digits.length) '0' ++ digits

/-- A year in four digits; one outside 0 to 9999 has a sign. -/
def yearText (year : Int) : List Char :=
  if 0 ≤ year ∧ year ≤ 9999 then padded 4 year.toNat
  else (if year < 0 then '-' else '+') :: padded 4 year.natAbs

/-- The fraction of a second in the fewest groups of three digits that are exact. -/
def fractionText (nanos : Nat) : List Char :=
  if nanos = 0 then []
  else if nanos % 1000000 = 0 then '.' :: padded 3 (nanos / 1000000)
  else if nanos % 1000 = 0 then '.' :: padded 6 (nanos / 1000)
  else '.' :: padded 9 nanos

/-- An offset as sign, hours and minutes. -/
def offsetText (offset : Int) : List Char :=
  let minutes := offset.natAbs / 60
  (if offset < 0 then '-' else '+') :: padded 2 (minutes / 60) ++ ':' :: padded 2 (minutes % 60)

/-- Local date and time of day in RFC 3339 form, with its offset. -/
def Timestamp.rfc3339 (moment : Timestamp) : String :=
  let seconds := moment.unix + moment.offset
  let date := Date.ofDays (seconds / 86400)
  let second := (seconds % 86400).toNat
  let leap := if leapNanos ≤ moment.nanos then 1 else 0
  String.ofList <|
    yearText date.year ++ '-' :: padded 2 date.month ++ '-' :: padded 2 date.day ++
    'T' :: padded 2 (second / 3600) ++ ':' :: padded 2 (second / 60 % 60) ++
    ':' :: padded 2 (second % 60 + leap) ++
    fractionText (moment.nanos - leap * leapNanos) ++ offsetText moment.offset

inductive TimestampFault where
  | tooShort
  | invalid
  | outOfRange
  | trailing
  deriving Repr, DecidableEq

def TimestampFault.message : TimestampFault → String
  | .tooShort => "premature end of input"
  | .invalid => "input contains invalid characters"
  | .outOfRange => "input is out of range"
  | .trailing => "trailing input"

abbrev Parser (α : Type) := StateT (List Char) (Except TimestampFault) α

def fail {α : Type} (fault : TimestampFault) : Parser α :=
  fun _ => .error fault

/-- One character out of a set, where the length of the text was checked before. -/
def oneOf (allowed : List Char) : Parser Unit
  | c :: rest => if c ∈ allowed then .ok ((), rest) else .error .invalid
  | [] => .error .invalid

/-- Exactly `count` digits, where the length of the text was checked before. -/
def digits (count : Nat) : Parser Nat := fun text =>
  match Text.digits? (text.take count) with
  | some n => if count ≤ text.length then .ok (n, text.drop count) else .error .invalid
  | none => .error .invalid

def guardRange (holds : Bool) : Parser Unit :=
  if holds then pure () else fail .outOfRange

def isDigit (c : Char) : Bool := '0' ≤ c && c ≤ '9'

/-- The fraction of a second, up to nine digits of which count. -/
def fraction : Parser Nat := fun text =>
  match text with
  | '.' :: rest =>
    let written := rest.takeWhile isDigit
    if written.isEmpty then .error (if rest.isEmpty then .tooShort else .invalid)
    else
      let counted := written.take 9
      let value := (Text.digits? counted).getD 0 * Nat.pow 10 (9 - counted.length)
      .ok (value, rest.dropWhile isDigit)
  | _ => .ok (0, text)

def twoDigits : Parser Nat := fun text =>
  if Text.utf8Size text < 2 then .error .tooShort
  else digits 2 text

def offsetColon : Parser Unit
  | ':' :: rest => .ok ((), rest)
  | [] => .error .tooShort
  | _ => .error .invalid

def signedOffset (negative : Bool) : Parser Int := do
  let hours ← twoDigits
  offsetColon
  let minutes ← twoDigits
  guardRange (minutes ≤ 59)
  let seconds : Int := hours * 3600 + minutes * 60
  pure (if negative then -seconds else seconds)

def offset : Parser Int
  | 'Z' :: rest => .ok (0, rest)
  | 'z' :: rest => .ok (0, rest)
  | '+' :: rest => signedOffset false rest
  | '-' :: rest => signedOffset true rest
  | '\u2212' :: rest => signedOffset true rest
  | [] => .error .tooShort
  | _ => .error .invalid

def ended : Parser Unit
  | [] => .ok ((), [])
  | _ => .error .trailing

def timestamp : Parser Timestamp := do
  let year ← digits 4
  oneOf ['-']
  let month ← digits 2
  oneOf ['-']
  let day ← digits 2
  let date : Date := ⟨year, month, day⟩
  guardRange date.isReal
  oneOf ['T', 't', ' ']
  let hour ← digits 2
  oneOf [':']
  let minute ← digits 2
  oneOf [':']
  let second ← digits 2
  let nanos ← fraction
  guardRange (hour ≤ 23 && minute ≤ 59 && second ≤ 60)
  let offset ← offset
  ended
  guardRange (offset.natAbs < 86400)
  let leap := second = 60
  let second := if leap then 59 else second
  let localTime : Int := date.toDays * 86400 + hour * 3600 + minute * 60 + second
  pure ⟨localTime - offset, if leap then nanos + leapNanos else nanos, offset⟩

/-- Reads the RFC 3339 form. -/
def Timestamp.parse (text : String) : Except TimestampFault Timestamp :=
  if Text.utf8Size text.toList < 19 then .error .tooShort
  else (timestamp text.toList).map Prod.fst

end GitHistory.Time
