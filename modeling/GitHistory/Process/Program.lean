import GitHistory.Files.Tree
import GitHistory.Shell.Run

/-!
The programs that every machine has, and what they do.
-/
namespace GitHistory

inductive Program where
  | shell
  | launcher
  | echo
  | printf
  | cat
  | pwd
  | sleep
  | succeed
  | fail
  deriving Repr, DecidableEq

namespace Program

def name : Program → String
  | .shell => "sh"
  | .launcher => "env"
  | .echo => "echo"
  | .printf => "printf"
  | .cat => "cat"
  | .pwd => "pwd"
  | .sleep => "sleep"
  | .succeed => "true"
  | .fail => "false"

def all : List Program :=
  [.shell, .launcher, .echo, .printf, .cat, .pwd, .sleep, .succeed, .fail]

/-- Directories that hold the programs; in this order they are searched for a bare name. -/
def searchPath : List Route := [["usr", "bin"], ["bin"]]

/-- The program under a route. -/
def at? (route : Route) : Option Program :=
  all.find? fun program => searchPath.any fun directory => route == directory ++ [program.name]

/-- Directories and files that every machine has besides its programs. -/
private def furniture : List (Route × Entry) := [
  (["tmp"], .directory),
  (["home"], .directory),
  (["root"], .directory),
  (["var"], .directory),
  (["etc"], .directory),
  (["etc", "passwd"], .file "" false),
  (["dev"], .directory),
  (["dev", "null"], .file "" false),
  (["proc"], .directory),
  (["usr"], .directory),
  (["usr", "bin"], .directory),
  (["bin"], .directory)]

/-- The tree of a machine on which nothing else was put. -/
def bareTree : FileTree :=
  ⟨furniture ++ searchPath.flatMap fun directory =>
    all.map fun program => (directory ++ [program.name], .file "" true)⟩

/-- What a shell script does. -/
def runScript (tree : FileTree) (current : Route) (environment : List (String × String))
    (name : String) (script : String) (arguments : List String) : ChildExit :=
  match Shell.readScript script with
  | none => .failing 2 s!"{name}: 1: Syntax error\n"
  | some commands =>
    let state := Shell.runAll commands {
      name := name
      arguments := arguments
      bindings := ("PWD", current.text) :: environment
      directory := current.text
      look := Shell.lookFrom tree current }
    ⟨state.stdout, state.stderr, state.ending.getD (.exited state.code), state.milliseconds⟩

/-- What a program does that was started as `called`; the launcher does nothing by itself. -/
def run (tree : FileTree) (current : Route) (environment : List (String × String))
    (called : String) (program : Program) (arguments : List String) : ChildExit :=
  match program, arguments with
  | .shell, "-c" :: script :: name :: arguments =>
    runScript tree current environment name script arguments
  | .shell, ["-c", script] => runScript tree current environment called script []
  | .shell, ["-c"] => .failing 2 s!"{called}: 0: -c requires an argument\n"
  | .shell, file :: arguments =>
    match tree.find current true file with
    | .ok (_, .file content _) => runScript tree current environment file content arguments
    | _ => .failing 2 s!"{called}: 0: cannot open {file}: No such file\n"
  | .shell, [] => .writing []
  | .launcher, _ => .writing []
  | .echo, words => .writing (Shell.echoedPlainly words)
  | .printf, "--" :: format :: arguments => .writing (Shell.formatted format arguments)
  | .printf, format :: arguments => .writing (Shell.formatted format arguments)
  | .printf, [] =>
    .failing 1 s!"{called}: missing operand\nTry '{called} --help' for more information.\n"
  | .cat, files =>
    let (bytes, complaints, code) :=
      Shell.concatenated (Shell.lookFrom tree current) [] called files
    ⟨bytes, Text.utf8 complaints.toList, .exited code, 0⟩
  | .pwd, _ => .writing (Text.utf8 current.text.toList ++ [10])
  | .sleep, [time] =>
    match Shell.duration? time with
    | some milliseconds => ⟨[], [], .exited 0, milliseconds⟩
    | none => .failing 1 s!"{called}: invalid time interval '{time}'\n"
  | .sleep, _ =>
    .failing 1 s!"{called}: missing operand\nTry '{called} --help' for more information.\n"
  | .succeed, _ => .writing []
  | .fail, _ => .failing 1 ""

end Program

end GitHistory
