import GitHistory.Error
import GitHistory.Text.Blank
import GitHistory.Text.Split

/-!
Commands and what they print. A command that fails is reported as the most telling error its
standard error text allows: rejected credentials before an unknown revision before anything
else.
-/
namespace GitHistory

/-- A program and its arguments. -/
structure Invocation where
  program : String
  arguments : List String
  deriving Repr, DecidableEq

/-- The command line as messages show it: words separated by blanks, nothing quoted. -/
def Invocation.text (invocation : Invocation) : String :=
  " ".intercalate (invocation.program :: invocation.arguments)

/-- What a finished command left behind; a command killed by a signal has no exit code. -/
structure CommandOutput where
  stdout : String
  stderr : String
  code : Option Int
  success : Bool
  deriving Repr, DecidableEq

namespace CommandOutput

def ok (stdout : String) : CommandOutput := ⟨stdout, "", some 0, true⟩

def failed (code : Int) (stderr : String) : CommandOutput := ⟨"", stderr, some code, false⟩

end CommandOutput

/-- What git says when a remote rejects credentials. -/
def rejectedCredentials : String := "Authentication failed"

/-- What git says of a revision it does not know. -/
def unknownRevisionMarks : List String :=
  ["unknown revision", "bad revision", "ambiguous argument"]

/-- Whether a line complains about a revision. -/
def complainsOfRevision (line : List Char) : Bool :=
  unknownRevisionMarks.any fun mark => Text.contains mark.toList line

/-- The revision that git complains about: the first text in quotes on the first line that
complains, or that whole line if nothing is quoted. -/
def unknownRevision? (stderr : List Char) : Option String := do
  let line ← (Text.lines stderr).find? complainsOfRevision
  match (Text.splitOn '\'' line)[1]? with
  | some reference => pure (String.ofList (if reference.isEmpty then line else reference))
  | none => pure (String.ofList line)

/-- The error that a failed command stands for. -/
def classifyFailure (command : String) (output : CommandOutput) : GitError :=
  let stderr := Text.trim output.stderr.toList
  if Text.contains rejectedCredentials.toList stderr then
    .authentication command (String.ofList stderr)
  else
    match unknownRevision? stderr with
    | some reference => .notFound reference
    | none => .process command output.code (String.ofList stderr)

end GitHistory
