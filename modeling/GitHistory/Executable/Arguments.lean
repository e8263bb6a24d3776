import GitHistory.Commit.Fragment
import GitHistory.Request
import GitHistory.Revision.Range

/-!
Arguments for the git executable. Each operation has a fixed number of arguments with fixed
words at fixed places; texts from outside stand behind `-C`, where git takes any text, or are
revisions, which never look like options.
-/
namespace GitHistory.Executable

/-- Arguments of a history query. -/
def logArguments (root : String) (request : Request) : Except GitError (List String) := do
  let range ← rangeArguments request.branchRef request.oldest request.newest
  pure (["-C", root, "log"] ++ range ++
    ["-n", toString request.count.toNat, dateOption, formatOption])

/-- The commit that a revision stands for, also where it names a tag. -/
def peeled (reference : String) : String := reference ++ "^\x7bcommit\x7d"

/-- The first parent of a revision. -/
def firstParent (reference : String) : String := reference ++ "^"

/-- Arguments of a query for one commit. -/
def showArguments (root reference : String) : Except GitError (List String) := do
  let reference ← checkRevision reference
  pure ["-C", root, "show", peeled reference, dateOption, formatOption, "-s"]

/-- Arguments of a query for change counts from one revision to another; with one revision
only, from its first parent to it. -/
def diffArguments (root revision : String) (other : Option String) :
    Except GitError (List String) := do
  let revision ← checkRevision revision
  let (old, new) ←
    match nonEmpty? other with
    | some other => do pure (revision, ← checkRevision other)
    | none => pure (firstParent revision, revision)
  pure ["-C", root, "diff", "--numstat", "-z", "--no-renames", old, new]

/-- Arguments that make a repository. -/
def initArguments (root : String) (bare : Bool) : List String :=
  ["-C", root, "init"] ++ if bare then ["--bare"] else []

/-- Arguments that register a remote repository as `origin`. -/
def remoteArguments (root url : String) : List String :=
  ["-C", root, "remote", "add", "origin", url]

end GitHistory.Executable
