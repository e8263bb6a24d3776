import GitHistory.Json.Strings
import GitHistory.Json.Numbers

/-!
Values that nobody asked for. They have to be well-formed, at any depth, and leave no trace.
-/
namespace GitHistory.Json.Reader

def skipElements (skip : Reader Unit) : Nat → Reader Unit
  | 0 => failAhead .endInList
  | turns + 1 => do
    skip
    match ← token with
    | some ',' => do advance; skipElements skip turns
    | some ']' => advance
    | some _ => failAhead .expectedListCommaOrEnd
    | none => failAhead .endInList

def skipMembers (skip : Reader Unit) : Nat → Reader Unit
  | 0 => failAhead .endInObject
  | turns + 1 => do
    match ← token with
    | some '"' => advance
    | some _ => failAhead .keyMustBeString
    | none => failAhead .endInObject
    skipString
    colon
    skip
    match ← token with
    | some ',' => do advance; skipMembers skip turns
    | some '}' => advance
    | some _ => failAhead .expectedObjectCommaOrEnd
    | none => failAhead .endInObject

def skipList (skip : Reader Unit) : Reader Unit := do
  match ← token with
  | some ']' => advance
  | some _ => fun rest => skipElements skip (rest.length + 1) rest
  | none => failAhead .endInList

def skipObject (skip : Reader Unit) : Reader Unit := do
  match ← token with
  | some '}' => advance
  | some _ => fun rest => skipMembers skip (rest.length + 1) rest
  | none => failAhead .endInObject

def skipWithin : Nat → Reader Unit
  | 0 => failAhead .endInValue
  | depth + 1 => do
    match ← valueToken with
    | 'n' => do advance; literal ['u', 'l', 'l']
    | 't' => do advance; literal ['r', 'u', 'e']
    | 'f' => do advance; literal ['a', 'l', 's', 'e']
    | '"' => do advance; skipString
    | '[' => do advance; skipList (skipWithin depth)
    | '{' => do advance; skipObject (skipWithin depth)
    | c => if c = '-' ∨ isDigit c then skipNumber else failAhead .expectedValue

/-- Passes over one value. Each level of nesting takes a character, so the length of the
unread text bounds the depth. -/
def skipValue : Reader Unit :=
  fun rest => skipWithin (rest.length + 1) rest

end GitHistory.Json.Reader
