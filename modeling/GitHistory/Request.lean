import GitHistory.Json.Typed
import GitHistory.Json.Value

/-!
What a history query asks for: a branch, how many commits, and the bounds that may narrow it.
-/
namespace GitHistory

structure Request where
  branchRef : String
  /-- The branch by the name that people use. -/
  branch : String
  count : UInt64
  oldest : Option String
  newest : Option String
  deriving Repr, DecidableEq

namespace Request

/-- The newest `count` commits of a branch. -/
def latest (branchRef : String) (count : UInt64) : Request :=
  ⟨branchRef, branchRef, count, none, none⟩

/-- A way to narrow a request down or to name its branch. -/
inductive Refinement where
  | branch (name : String)
  | oldest (hash : String)
  | newest (hash : String)
  deriving Repr

def refine (request : Request) : Refinement → Request
  | .branch name => { request with branch := name }
  | .oldest hash => { request with oldest := some hash }
  | .newest hash => { request with newest := some hash }

def toJson (request : Request) : Json.Value :=
  .object [
    ("branch_ref", .string request.branchRef),
    ("branch", .string request.branch),
    ("commit_count", .number request.count.toNat),
    ("from_commit_hash", .ofOptional request.oldest),
    ("to_commit_hash", .ofOptional request.newest)]

open Json (Reader)
open Json.Reader

/-- The fields seen so far. -/
structure Fields where
  branchRef : Option String := none
  branch : Option String := none
  count : Option UInt64 := none
  oldest : Option (Option String) := none
  newest : Option (Option String) := none

def Fields.step (given : Fields) (key : String) : Reader Fields := do
  match key with
  | "branch_ref" => pure { given with branchRef := ← field key given.branchRef (string .string) }
  | "branch" => pure { given with branch := ← field key given.branch (string .string) }
  | "commit_count" =>
    pure { given with count := ← field key given.count (Json.Reader.count .size) }
  | "from_commit_hash" =>
    pure { given with oldest := ← field key given.oldest (optional (string .string)) }
  | "to_commit_hash" =>
    pure { given with newest := ← field key given.newest (optional (string .string)) }
  | _ => do
    unknownField
    pure given

def Fields.finish (given : Fields) : Reader Request := do
  pure {
    branchRef := ← required "branch_ref" given.branchRef
    branch := ← required "branch" given.branch
    count := ← required "commit_count" given.count
    oldest := given.oldest.join
    newest := given.newest.join }

def byPosition : Reader Request := do
  let arity : Json.Arity := .record "IteratorRequest" 5
  pure {
    branchRef := ← element arity 0 (string .string)
    branch := ← element arity 1 (string .string)
    count := ← element arity 2 (Json.Reader.count .size)
    oldest := ← element arity 3 (optional (string .string))
    newest := ← element arity 4 (optional (string .string)) }

def reader : Reader Request :=
  record "IteratorRequest" Fields.step {} Fields.finish byPosition

def ofJson (text : String) : Except Json.Failure Request :=
  reader.parse text.toList

end Request

end GitHistory
