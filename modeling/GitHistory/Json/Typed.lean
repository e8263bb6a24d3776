import GitHistory.Json.Skip

/-!
Readers for values of a known type. A value of another type is named in the failure: scalars
are read first, so their own faults win, while a list or an object is not entered.
-/
namespace GitHistory.Json.Reader

variable {α σ : Type}

/-- A scalar, or the kind of container that starts here. -/
def found : Reader Found := do
  match ← valueToken with
  | 'n' => do advance; literal ['u', 'l', 'l']; pure .null
  | 't' => do advance; literal ['r', 'u', 'e']; pure (.boolean true)
  | 'f' => do advance; literal ['a', 'l', 's', 'e']; pure (.boolean false)
  | '"' => do advance; Found.string <$> stringBody
  | '[' => pure .sequence
  | '{' => pure .object
  | c => if c = '-' ∨ isDigit c then Found.number <$> number else failAhead .expectedValue

/-- Refuses whatever value comes next. -/
def wrongType (expected : Expected) : Reader α := do
  failHere (.invalidType (← found) expected)

def string (expected : Expected) : Reader String := do
  match ← valueToken with
  | '"' => do advance; stringBody
  | _ => wrongType expected

/-- Either null or a value. -/
def optional (read : Reader α) : Reader (Option α) := do
  match ← token with
  | some 'n' => do advance; literal ['u', 'l', 'l']; pure none
  | _ => some <$> read

/-- Takes a number as a count, if it is one. -/
def countOf (expected : Expected) : Found → Except Cause UInt64
  | .number (.count n) => .ok n
  | .number (.negative n) => .error (.invalidValue (.number (.negative n)) expected)
  | other => .error (.invalidType other expected)

def count (expected : Expected) : Reader UInt64 := do
  match countOf expected (← found) with
  | .ok n => pure n
  | .error cause => failHere cause

def null (expected : Expected) : Reader Unit := do
  match ← valueToken with
  | 'n' => do advance; literal ['u', 'l', 'l']
  | _ => wrongType expected

/-- A record, either by name from an object or by position from a list. -/
def record (name : String) (step : σ → String → Reader σ) (start : σ)
    (finish : σ → Reader α) (positional : Reader α) : Reader α := do
  match ← valueToken with
  | '{' => do
    advance
    finish (← members stringBody step start)
  | '[' => do
    advance
    let value ← positional
    closeList
    pure value
  | _ => wrongType (.record name)

/-- Passes over the value of a field that the record does not have. -/
def unknownField : Reader Unit := do
  colon
  skipValue

/-- How deep containers may nest where values are kept. -/
def depthLimit : Nat := 128

/-- A value of any type, read completely. The depth counts containers still allowed. -/
def anyValue : Nat → Reader Found
  | 0 => failAhead .tooDeep
  | depth + 1 => do
    match ← found with
    | .sequence => do
      if depth = 0 then failAhead .tooDeep
      advance
      let _ ← elements (anyValue depth) true
      pure .sequence
    | .object => do
      if depth = 0 then failAhead .tooDeep
      advance
      members stringBody (fun _ _ => do colon; let _ ← anyValue depth) ()
      pure .object
    | scalar => pure scalar

end GitHistory.Json.Reader
