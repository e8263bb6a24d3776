import GitHistory.Json.Reader

/-!
Strings behind their opening quote. A value decodes its escapes, and surrogates have to come in
pairs; a skipped string only needs escapes of the right shape.
-/
namespace GitHistory.Json

/-- Value of a hexadecimal digit. -/
def hexValue? (c : Char) : Option Nat :=
  if '0' ≤ c ∧ c ≤ '9' then some (c.toNat - '0'.toNat)
  else if 'a' ≤ c ∧ c ≤ 'f' then some (c.toNat - 'a'.toNat + 10)
  else if 'A' ≤ c ∧ c ≤ 'F' then some (c.toNat - 'A'.toNat + 10)
  else none

/-- Value of four hexadecimal digits. -/
def hexQuad? (a b c d : Char) : Option Nat := do
  pure ((((← hexValue? a) * 16 + (← hexValue? b)) * 16 + (← hexValue? c)) * 16 + (← hexValue? d))

/-- The character that a one-letter escape stands for. -/
def escaped? : Char → Option Char
  | '"' => some '"'
  | '\\' => some '\\'
  | '/' => some '/'
  | 'b' => some '\x08'
  | 'f' => some '\x0c'
  | 'n' => some '\n'
  | 'r' => some '\r'
  | 't' => some '\t'
  | _ => none

def isLeadingSurrogate (n : Nat) : Bool := 0xD800 ≤ n && n ≤ 0xDBFF

def isTrailingSurrogate (n : Nat) : Bool := 0xDC00 ≤ n && n ≤ 0xDFFF

/-- The character of a surrogate pair. -/
def surrogatePair (lead trail : Nat) : Char :=
  Char.ofNat (0x10000 + (lead - 0xD800) * 1024 + (trail - 0xDC00))

/-- Four hexadecimal digits were due: too few bytes end the text, others end the escape. -/
def quadFailure (rest : List Char) : Failure :=
  if Text.utf8Size rest < 4 then .before [] .endInString else .into 4 rest .invalidEscape

/-- A trailing surrogate was due and its escape does not even start. -/
def pairFailure : List Char → Failure
  | [] => .before [] .endInString
  | '\\' :: [] => .before [] .endInString
  | '\\' :: rest => .into 1 rest .unfinishedSurrogate
  | rest => .into 1 rest .unfinishedSurrogate

def stringFrom (done : List Char) :
    List Char → Except Failure (String × List Char)
  | [] => .error (.before [] .endInString)
  | '"' :: rest => .ok (String.ofList done.reverse, rest)
  | '\\' :: 'u' :: a :: b :: c :: d :: rest =>
    match hexQuad? a b c d with
    | none => .error (quadFailure (a :: b :: c :: d :: rest))
    | some n =>
      if isTrailingSurrogate n then .error (.before rest .loneSurrogate)
      else if isLeadingSurrogate n then
        match rest with
        | '\\' :: 'u' :: e :: f :: g :: h :: rest =>
          match hexQuad? e f g h with
          | none => .error (quadFailure (e :: f :: g :: h :: rest))
          | some m =>
            if isTrailingSurrogate m then stringFrom (surrogatePair n m :: done) rest
            else .error (.before rest .loneSurrogate)
        | '\\' :: 'u' :: rest => .error (quadFailure rest)
        | rest => .error (pairFailure rest)
      else stringFrom (Char.ofNat n :: done) rest
  | '\\' :: 'u' :: rest => .error (quadFailure rest)
  | '\\' :: [] => .error (.before [] .endInString)
  | '\\' :: c :: rest =>
    match escaped? c with
    | some plain => stringFrom (plain :: done) rest
    | none => .error (.into 1 (c :: rest) .invalidEscape)
  | c :: rest =>
    if c.val < 0x20 then .error (.before rest .controlCharacter)
    else stringFrom (c :: done) rest

def skipStringFrom : List Char → Except Failure (Unit × List Char)
  | [] => .error (.before [] .endInString)
  | '"' :: rest => .ok ((), rest)
  | '\\' :: 'u' :: a :: b :: c :: d :: rest =>
    match hexQuad? a b c d with
    | none => .error (quadFailure (a :: b :: c :: d :: rest))
    | some _ => skipStringFrom rest
  | '\\' :: 'u' :: rest => .error (quadFailure rest)
  | '\\' :: [] => .error (.before [] .endInString)
  | '\\' :: c :: rest =>
    match escaped? c with
    | some _ => skipStringFrom rest
    | none => .error (.into 1 (c :: rest) .invalidEscape)
  | c :: rest =>
    if c.val < 0x20 then .error (.before (c :: rest) .controlCharacter)
    else skipStringFrom rest

namespace Reader

/-- The text of a string, up to and with its closing quote. -/
def stringBody : Reader String :=
  stringFrom []

/-- Passes over a string, up to and with its closing quote. -/
def skipString : Reader Unit :=
  skipStringFrom

end Reader

end GitHistory.Json
