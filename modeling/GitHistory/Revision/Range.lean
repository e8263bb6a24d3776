import GitHistory.Error

/-!
The range of a history query. It has a tip and perhaps a boundary, the oldest commit wanted;
an empty text counts as not given. A revision that starts with a dash would be read as an
option by the git executable, so none is ever let through.
-/
namespace GitHistory

/-- Whether a command line would take the text for an option. -/
def looksLikeOption (text : String) : Bool :=
  text.toList.head? == some '-'

/-- Lets a revision pass unless it looks like an option. -/
def checkRevision (revision : String) : Except GitError String :=
  if looksLikeOption revision then .error (.invalidReference revision) else .ok revision

/-- A text that was given and is not empty. -/
def nonEmpty? : Option String → Option String
  | some text => if text.isEmpty then none else some text
  | none => none

inductive RevisionRange where
  | between (oldest newest : String)
  | sinceOnBranch (oldest branch : String)
  | upTo (newest : String)
  | branch (name : String)
  deriving Repr, DecidableEq

namespace RevisionRange

/-- The range for a branch and the bounds that may narrow it. -/
def resolve (branchRef : String) (oldest newest : Option String) : RevisionRange :=
  match nonEmpty? oldest, nonEmpty? newest with
  | some oldest, some newest => .between oldest newest
  | some oldest, none => .sinceOnBranch oldest branchRef
  | none, some newest => .upTo newest
  | none, none => .branch branchRef

/-- The newest revision of the range. -/
def tip : RevisionRange → String
  | .between _ newest => newest
  | .sinceOnBranch _ name => name
  | .upTo newest => newest
  | .branch name => name

/-- The oldest revision of the range; what comes before its first parent is left out. -/
def boundary? : RevisionRange → Option String
  | .between oldest _ => some oldest
  | .sinceOnBranch oldest _ => some oldest
  | .upTo _ => none
  | .branch _ => none

/-- The revisions that the range uses, boundary before tip. -/
def revisions (range : RevisionRange) : List String :=
  range.boundary?.toList ++ [range.tip]

/-- The range in git's notation. -/
def text (range : RevisionRange) : String :=
  match range.boundary? with
  | some oldest => oldest ++ "^.." ++ range.tip
  | none => range.tip

/-- Fails for the first revision that looks like an option. -/
def check (range : RevisionRange) : Except GitError Unit :=
  range.revisions.forM fun revision => (checkRevision revision).map fun _ => ()

/-- The range as command-line arguments. -/
def arguments (range : RevisionRange) : Except GitError (List String) := do
  range.check
  pure [range.text]

end RevisionRange

/-- Command-line arguments for a branch and the bounds that may narrow it. -/
def rangeArguments (branchRef : String) (oldest newest : Option String) :
    Except GitError (List String) :=
  (RevisionRange.resolve branchRef oldest newest).arguments

end GitHistory
