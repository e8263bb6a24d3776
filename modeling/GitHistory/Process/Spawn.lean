import GitHistory.Context
import GitHistory.Process.Command
import GitHistory.Process.Program

/-!
Starting commands and waiting for them. A command that cannot start is an error of its own;
one that starts leaves behind what it wrote, which has to be UTF-8 on standard output only.
-/
namespace GitHistory

/-- Where commands run. -/
structure Machine where
  tree : FileTree
  current : Route
  environment : List (String × String)

namespace Machine

/-- The entry that a program's name or path stands for. -/
def program (machine : Machine) (program : String) : Except IoError (Route × Entry) :=
  if program.toList.contains '/' then machine.tree.find machine.current true program
  else if program.isEmpty then .error .notFound
  else if FileTree.nameLimit < Text.utf8Size program.toList then .error .nameTooLong
  else
    let routes := Program.searchPath.map (· ++ [program])
    match routes.find? fun route => (machine.tree.entry? route).isSome with
    | some route => .ok (route, (machine.tree.entry? route).getD .directory)
    | none => .error .notFound

/-- The interpreter that the first line of a script names, and its argument. -/
def interpreter? (content : String) : Option (String × List String) :=
  match content.toList with
  | '#' :: '!' :: rest =>
    let isBlank := fun c => c == ' ' || c == '\t'
    let line := Text.trimEnd isBlank ((rest.takeWhile (· != '\n')).dropWhile isBlank)
    let path := line.takeWhile fun c => !isBlank c
    let argument := (line.drop path.length).dropWhile isBlank
    if path.isEmpty then none
    else some (String.ofList path, if argument.isEmpty then [] else [String.ofList argument])
  | _ => none

/-- Runs an executable entry. A launcher starts the program named by its first argument, and
interpreters may be scripts themselves, but only so many times. -/
def execute (machine : Machine) (environment : List (String × String)) :
    Nat → String → Except IoError (Route × Entry) → List String → Except IoError ChildExit
  | _, _, .error error, _ => .error error
  | 0, _, _, _ => .error .tooManyLinks
  | turns + 1, called, .ok (route, entry), arguments =>
    match Program.at? route, entry with
    | some .launcher, .file .. =>
      match arguments with
      | [] => .ok (.writing [])
      | name :: arguments =>
        match machine.execute environment turns name (machine.program name) arguments with
        | .ok child => .ok child
        | .error _ => .ok (.failing 127 s!"{called}: ‘{name}’: No such file or directory\n")
    | some program, .file .. =>
      .ok (program.run machine.tree machine.current environment called arguments)
    | none, .file content true =>
      match interpreter? content with
      | none => .error .notExecutable
      | some (path, options) =>
        machine.execute environment turns path
          (machine.tree.find machine.current true path) (options ++ called :: arguments)
    | _, _ => .error .permissionDenied

/-- Depth to which interpreters may be scripts. -/
def interpreterLimit : Nat := 5

/-- Starts a command with settings on top of the machine's own. -/
def spawn (machine : Machine) (settings : List (String × String)) (invocation : Invocation) :
    Except IoError ChildExit :=
  let texts := invocation.program :: invocation.arguments ++ settings.map (·.2)
  if texts.any fun text => text.toList.contains '\x00' then .error .nulInArguments
  else
    machine.execute (settings ++ machine.environment) interpreterLimit invocation.program
      (machine.program invocation.program) invocation.arguments

end Machine

/-- How to run commands: the program that hands out credentials, if there is one, and the
number of milliseconds after which the context is cancelled. -/
structure Runner where
  askpass : Option String := none
  deadline : Option Nat := none

namespace Runner

/-- Variables for a command: git must never prompt, and finds the credentials there are. -/
def settings (runner : Runner) (credentials : Option Credentials) : List (String × String) :=
  ("GIT_TERMINAL_PROMPT", "0") ::
    match credentials with
    | none => []
    | some credentials =>
      ("GIT_USERNAME", credentials.username) :: ("GIT_PASSWORD", credentials.password) ::
        match runner.askpass with
        | none => []
        | some path => [("GIT_ASKPASS", path)]

/-- Whether a process is still running when the context gets cancelled. -/
def outlasted (runner : Runner) (milliseconds : Nat) : Bool :=
  match runner.deadline with
  | some deadline => decide (deadline < milliseconds)
  | none => false

/-- What a finished process left behind, as text. -/
def output (invocation : Invocation) (child : ChildExit) : Except GitError CommandOutput :=
  match Text.decodeUtf8 child.stdout with
  | .error fault =>
    .error (.decode s!"{invocation.text} wrote non-UTF-8 output: {fault.message}")
  | .ok stdout =>
    .ok ⟨stdout, Text.decodeUtf8Lossy child.stderr, child.status.code?, child.status.isSuccess⟩

/-- Runs a command to its end, unless the context is cancelled before or meanwhile. -/
def run (runner : Runner) (machine : Machine) (caller : Caller) (invocation : Invocation) :
    Except GitError CommandOutput :=
  if caller.cancelled then .error .cancelled
  else
    match machine.spawn (runner.settings caller.credentials) invocation with
    | .error source => .error (.spawn invocation.text source)
    | .ok child =>
      if runner.outlasted child.milliseconds then .error .cancelled
      else output invocation child

end Runner

end GitHistory
