import GitHistory.Executable.Arguments
import GitHistory.Executable.Plan
import GitHistory.FileStats.Numstat

/-!
The operations on a repository as plans for the git executable. Arguments are checked before
anything is done; reading takes exactly one command, and what it prints is decoded as a whole.
-/
namespace GitHistory.Executable

variable {α : Type}

/-- Runs one command and ends with what its output gives. -/
def query (program : String) (arguments : Except GitError (List String))
    (decode : Except GitError String → Except GitError α) : Plan α :=
  match arguments with
  | .error error => .done (.error error)
  | .ok arguments =>
    let invocation : Invocation := ⟨program, arguments⟩
    .run invocation fun reply => .done (decode (printed invocation reply))

/-- The commits of a range in a checkout. -/
def commitsForRange (program root : String) (request : Request) : Plan (List Commit) :=
  query program (logArguments root request) fun printed => do decodeLog (← printed) root

/-- An unknown revision is reported by the name that the caller used. -/
def renamed (reference : String) : GitError → GitError
  | .notFound _ => .notFound reference
  | other => other

/-- The commit that a tag or a hash stands for. -/
def commitByReference (program root reference : String) : Plan Commit :=
  query program (showArguments root reference) fun printed => do
    let output ← printed.mapError (renamed reference)
    match ← decodeLog output root with
    | commit :: _ => pure commit
    | [] => throw (.notFound reference)

/-- The change counts between two revisions, or of one. -/
def diffStats (program root revision : String) (other : Option String) : Plan FileStats :=
  query program (diffArguments root revision other) fun printed => do
    Numstat.parseFields (← printed)

/-- A failure of a step, told as the failure of the whole unless it is a cancellation. -/
def stepFailure (tell : String → GitError) : GitError → GitError
  | .cancelled => .cancelled
  | other => tell other.message

/-- Makes a directory, a repository in it, and a remote named `origin`. -/
def init (program root url : String) (bare : Bool) : Plan Unit :=
  if looksLikeOption url then .done (.error (.remote url "URL must not start with '-'"))
  else
    .makeDirectories root fun made =>
      match made with
      | .error source => .done (.error (.io root source))
      | .ok () =>
        let make : Invocation := ⟨program, initArguments root bare⟩
        .run make fun reply =>
          match printed make reply with
          | .error error => .done (.error (stepFailure (.init root) error))
          | .ok _ =>
            let register : Invocation := ⟨program, remoteArguments root url⟩
            .run register fun reply =>
              match printed register reply with
              | .error error => .done (.error (stepFailure (.remote url) error))
              | .ok _ => .done (.ok ())

end GitHistory.Executable
