import GitHistory.Error

/-!
The committer line of a commit: a name, an address in angle brackets, seconds since 1970 and a
time zone. The line is bytes, and is read as far as it makes sense.
-/
namespace GitHistory

structure Signature where
  name : List UInt8
  email : List UInt8
  seconds : Int
  /-- Minutes that local time is ahead. -/
  offset : Int
  deriving Repr, DecidableEq

inductive SignatureFault where
  | address
  | time
  deriving Repr, DecidableEq

def SignatureFault.toStoreFault : SignatureFault → StoreFault
  | .address => ⟨.generic, .invalid, "failed to parse signature - malformed e-mail"⟩
  | .time => ⟨.generic, .invalid, "failed to parse signature - invalid Unix timestamp"⟩

/-- White space of the C locale. -/
def isSpaceByte (b : UInt8) : Bool := b == 32 || (9 ≤ b && b ≤ 13)

namespace Signature

/-- Bytes that do not count at the ends of names and addresses. -/
def isCrud (b : UInt8) : Bool :=
  b ≤ 32 || [',', ':', ';', '<', '>', '"', '\\', '\''].any fun c => c.toUInt8 == b

private def trimmed (text : List UInt8) : List UInt8 :=
  ((text.dropWhile isCrud).reverse.dropWhile isCrud).reverse

/-- What comes before a zero byte. -/
def beforeZero (text : List UInt8) : List UInt8 := text.takeWhile (· != 0)

private def digit? (b : UInt8) : Option Nat :=
  if 48 ≤ b && b ≤ 57 then some (b.toNat - 48) else none

/-- An integer of at most `bits` bits with white space and a sign in front, and what follows
it. -/
def integer? (bits : Nat) (text : List UInt8) : Option (Int × List UInt8) :=
  let text := text.dropWhile isSpaceByte
  let (negative, text) :=
    match text with
    | 45 :: rest => (true, rest)
    | 43 :: rest => (false, rest)
    | rest => (false, rest)
  let digits := (text.takeWhile fun b => (digit? b).isSome).filterMap digit?
  let size : Nat := digits.foldl (fun value digit => value * 10 + digit) 0
  let limit := Nat.pow 2 (bits - 1)
  if digits.isEmpty then none
  else if negative then
    if size ≤ limit then some (-Int.ofNat size, text.drop digits.length) else none
  else if size < limit then some (Int.ofNat size, text.drop digits.length)
  else none

/-- Minutes of a time zone. It needs a sign; one that is no number, or whose hours or minutes
are too many, counts as zero. -/
def zoneMinutes (zone : List UInt8) : Int :=
  match zone with
  | [] => 0
  | sign :: rest =>
    let number :=
      if sign = 45 ∨ sign = 43 then ((integer? 32 rest).map (·.1)).getD 0 else 0
    let hours := Int.tdiv number 100
    let minutes := Int.tmod number 100
    if hours ≤ 14 ∧ minutes ≤ 59 then
      let total := hours * 60 + minutes
      if sign = 45 then -total else total
    else 0

/-- Cuts at the last occurrence of a byte. -/
private def cutLast? (separator : UInt8) (text : List UInt8) :
    Option (List UInt8 × List UInt8) :=
  let after := (text.reverse.takeWhile (· != separator)).reverse
  if after.length < text.length then
    some (text.take (text.length - after.length - 1), after)
  else none

/-- Reads a committer line. -/
def parse (line : List UInt8) : Except SignatureFault Signature :=
  match cutLast? 60 line, cutLast? 62 line with
  | some (name, _), some (upToEmail, afterEmail) =>
    if upToEmail.length ≤ name.length then .error .address
    else
      let signature := fun (seconds : Int) (offset : Int) => {
        name := beforeZero (trimmed name)
        email := beforeZero (trimmed (upToEmail.drop (name.length + 1)))
        seconds := seconds
        offset := offset : Signature }
      match afterEmail with
      | [] => .ok (signature 0 0)
      | [_] => .ok (signature 0 0)
      | _ :: time =>
        match integer? 64 time with
        | none => .error .time
        | some (seconds, zone) => .ok (signature seconds (zoneMinutes (zone.drop 1)))
  | _, _ => .error .address

end Signature

end GitHistory
