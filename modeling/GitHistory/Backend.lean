import GitHistory.Json.Typed
import GitHistory.Json.Value

/-!
The two ways to read a repository: by running the git executable, or in-process.
-/
namespace GitHistory

inductive Backend where
  | executable
  | library
  deriving Repr, DecidableEq

namespace Backend

def name : Backend → String
  | .executable => "cli"
  | .library => "libgit2"

/-- The backend used where none is asked for. -/
def default : Backend := .executable

/-- Small letters for the capital ones of ASCII. -/
def foldCase (text : String) : String :=
  String.ofList (text.toList.map Char.toLower)

/-- A name that no backend has, with its case folded. -/
structure Unknown where
  name : String

def Unknown.message (unknown : Unknown) : String :=
  s!"unknown backend '{unknown.name}' (expected cli or libgit2)"

/-- The backend of a name, in whatever case. -/
def parse (text : String) : Except Unknown Backend :=
  match foldCase text with
  | "cli" => .ok .executable
  | "git" => .ok .executable
  | "libgit2" => .ok .library
  | "git2" => .ok .library
  | other => .error ⟨other⟩

def toJson (backend : Backend) : Json.Value := .string backend.name

open Json Json.Reader in
private def variant : Reader Backend := do
  advance
  match ← stringBody with
  | "cli" => pure .executable
  | "libgit2" => pure .library
  | other => failHere (.unknownVariant other "cli" "libgit2")

open Json Json.Reader in
/-- A backend in JSON is its exact name, or an object with the name as its only key and null as
its value. -/
def reader : Reader Backend := do
  match ← valueToken with
  | '"' => variant
  | '{' => do
    advance
    match ← token with
    | some '"' => do
      let backend ← variant
      colon
      null .nothing
      match ← token with
      | some '}' => do
        advance
        pure backend
      | some _ => failHere .expectedValue
      | none => failHere .endInObject
    | some '}' => failAhead .expectedValue
    | some _ => failAhead .keyMustBeString
    | none => failAhead .endInObject
  | _ => failAhead .expectedValue

def ofJson (text : String) : Except Json.Failure Backend :=
  reader.parse text.toList

end Backend

end GitHistory
