import GitHistory.CommandLine.Config
import GitHistory.Commit.Batch

/-!
What each command prints: one JSON value, with the members of every object in alphabetical order.
-/
namespace GitHistory.CommandLine

/-- Why a command comes to nothing. -/
inductive Failure where
  | git (error : GitError)
  | crash (overflow : Overflow)
  deriving Repr, DecidableEq

/-- Commits are printed in the order in which they came. -/
def commitsOutput (commits : List Commit) : Json.Value :=
  .list (commits.map Commit.toSortedJson)

/-- What changed, with totals; nothing is printed if a total leaves the range of counts. -/
def statsOutput (reference : String) (against : Option String) (stats : FileStats) :
    Except Overflow Json.Value := do
  let additions ← stats.totalAdditions
  let deletions ← stats.totalDeletions
  pure (.object [
    ("additions", .number additions.toNat),
    ("against", .ofOptional against),
    ("binary", .list (stats.binaryFiles.map .string)),
    ("commit", .string reference),
    ("deletions", .number deletions.toNat),
    ("files", stats.toSortedJson)])

/-- What is printed of a new repository. -/
def initOutput (directory remoteUrl : String) (bare : Bool) : Json.Value :=
  .object [
    ("bare", .boolean bare),
    ("path", .string directory),
    ("remote", .string remoteUrl)]

/-- The history query that a command line asks for. -/
def logRequest (branch : String) (oldest newest : Option String) (count : UInt64) : Request :=
  { Request.latest branch count with oldest := oldest, newest := newest }

/-- The value to print, if the operation succeeded. -/
def printed {α : Type} (render : α → Json.Value) :
    Except GitError α → Except Failure Json.Value
  | .ok result => .ok (render result)
  | .error error => .error (.git error)

/-- Carries a command out in a checkout. -/
def Command.run (manager : Manager) (caller : Caller) (repo : String) :
    Command → StateM Stage (Except Failure Json.Value)
  | .init directory remoteUrl bare => do
    return printed (fun _ => initOutput directory remoteUrl bare)
      (← manager.init caller directory remoteUrl bare)
  | .log branch oldest newest count => do
    let commits ← manager.log caller repo (logRequest branch oldest newest count)
    return printed commitsOutput (commits >>= fun commits => (CommitBatch.ofCommits commits).drain)
  | .show reference => do
    return printed Commit.toSortedJson (← manager.commitByReference caller repo reference)
  | .stats reference against => do
    match ← manager.diffStats caller repo reference against with
    | .error error => return .error (.git error)
    | .ok changes =>
      match statsOutput reference against changes with
      | .ok value => return .ok value
      | .error overflow => return .error (.crash overflow)

end GitHistory.CommandLine
