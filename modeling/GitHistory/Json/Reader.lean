import GitHistory.Json.Failure

/-!
Reading JSON text front to back. A reader takes a value off the front of the unread text or
fails; it never looks at what was read before, so what it accepts does not depend on where in
a text it stands.
-/
namespace GitHistory.Json

abbrev Reader := StateT (List Char) (Except Failure)

/-- The four white-space characters of JSON. -/
def isSpace (c : Char) : Bool :=
  c == ' ' || c == '\t' || c == '\n' || c == '\r'

def isDigit (c : Char) : Bool :=
  '0' ≤ c && c ≤ '9'

def dropSpace (text : List Char) : List Char :=
  text.dropWhile isSpace

namespace Reader

variable {α σ : Type}

/-- Fails at the place reached. -/
def failHere (cause : Cause) : Reader α :=
  fun rest => .error (.before rest cause)

/-- Fails one byte further on, at the byte looked at. -/
def failAhead (cause : Cause) : Reader α :=
  fun rest => .error (.into 1 rest cause)

/-- Fails where a container ends, if it ends here, else at its next token. -/
def failClosing (close : Char) (cause : Cause) : Reader α := fun rest =>
  match dropSpace rest with
  | c :: after => .error (.before (if c = close then after else c :: after) cause)
  | [] => .error (.before [] cause)

def peek : Reader (Option Char) :=
  fun rest => .ok (rest.head?, rest)

/-- Skips white space and shows the next character without taking it. -/
def token : Reader (Option Char) :=
  fun rest => .ok ((dropSpace rest).head?, dropSpace rest)

/-- Takes one character. -/
def advance : Reader Unit :=
  fun rest => .ok ((), rest.drop 1)

/-- The next token, where a value has to start. -/
def valueToken : Reader Char := do
  match ← token with
  | some c => pure c
  | none => failAhead .endInValue

/-- The rest of a literal name, character by character. -/
def literal : List Char → Reader Unit
  | [] => pure ()
  | expected :: more => do
    match ← peek with
    | none => failHere .endInValue
    | some c => if c = expected then do advance; literal more else failAhead .expectedLiteral

/-- The colon between a key and its value. -/
def colon : Reader Unit := do
  match ← token with
  | some ':' => advance
  | some _ => failAhead .expectedColon
  | none => failAhead .endInObject

/-- Nothing but white space may be left. -/
def finish : Reader Unit := do
  match ← token with
  | some _ => failAhead .trailingCharacters
  | none => pure ()

/-- Reads a whole text as one value. -/
def parse (reader : Reader α) (text : List Char) : Except Failure α := do
  let (value, rest) ← reader text
  let _ ← finish rest
  pure value

/-! Lists and objects. Each turn of a loop takes at least one character, so the length of the
unread text bounds the number of turns. -/

/-- Whether another element follows; if so the reader stands at its first token. -/
def nextElement (first : Bool) : Reader Bool := do
  match ← token with
  | none => failAhead .endInList
  | some ']' => pure false
  | some c =>
    if first then pure true
    else if c = ',' then do
      advance
      match ← token with
      | some ']' => failAhead .trailingComma
      | some _ => pure true
      | none => failAhead .endInValue
    else failAhead .expectedListCommaOrEnd

def elementsFrom (read : Reader α) : Nat → Bool → List α → Reader (List α)
  | 0, _, _ => failAhead .endInList
  | turns + 1, first, done => do
    if ← nextElement first then
      let value ← read
      elementsFrom read turns false (value :: done)
    else
      advance
      pure done.reverse

/-- The elements of a list, read up to and with its closing bracket; the opening one is
already taken. -/
def elements (read : Reader α) (first : Bool) : Reader (List α) :=
  fun rest => elementsFrom read (rest.length + 1) first [] rest

/-- Whether another member follows; if so the reader stands at the quote of its key. -/
def nextMember (first : Bool) : Reader Bool := do
  match ← token with
  | none => failAhead .endInObject
  | some '}' => pure false
  | some c =>
    if first then
      if c = '"' then pure true else failAhead .keyMustBeString
    else if c = ',' then do
      advance
      match ← token with
      | some '"' => pure true
      | some '}' => failAhead .trailingComma
      | some _ => failAhead .keyMustBeString
      | none => failAhead .endInValue
    else failAhead .expectedObjectCommaOrEnd

def membersFrom (key : Reader String) (step : σ → String → Reader σ) :
    Nat → Bool → σ → Reader σ
  | 0, _, _ => failAhead .endInObject
  | turns + 1, first, state => do
    if ← nextMember first then
      advance
      let name ← key
      let state ← step state name
      membersFrom key step turns false state
    else
      advance
      pure state

/-- Folds the members of an object, up to and with its closing brace; the opening one is
already taken. `key` reads a key after its quote, and `step` goes on right behind the key. -/
def members (key : Reader String) (step : σ → String → Reader σ) (start : σ) : Reader σ :=
  fun rest => membersFrom key step (rest.length + 1) true start rest

/-- The end of a positional record. -/
def closeList : Reader Unit := do
  match ← token with
  | some ']' => advance
  | some ',' => do
    advance
    match ← token with
    | some ']' => failAhead .trailingComma
    | _ => failAhead .trailingCharacters
  | some _ => failAhead .trailingCharacters
  | none => failAhead .endInList

/-- The element at `index` of a positional record. -/
def element (arity : Arity) (index : Nat) (read : Reader α) : Reader α := do
  if ← nextElement (index = 0) then read
  else failClosing ']' (.invalidLength index arity)

/-- The value of a named field, which may be given only once. -/
def field (name : String) (given : Option α) (read : Reader α) : Reader (Option α) := do
  match given with
  | some _ => failClosing '}' (.duplicateField name)
  | none => do
    colon
    some <$> read

/-- A field that an object has to have; asked for after the closing brace. -/
def required (name : String) : Option α → Reader α
  | some value => pure value
  | none => failHere (.missingField name)

end Reader

end GitHistory.Json
