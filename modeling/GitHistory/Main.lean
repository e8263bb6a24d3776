import GitHistory.CommandLine.Help
import GitHistory.CommandLine.Outcome

/-!
The program on a real machine: it takes the environment, and the files around the current
directory, runs in the world they make up, and leaves on disk the directories and files that
this world has gained. Object stores are not read from disk; a repository found there counts as
one without commits.
-/
open GitHistory

/-- How many levels below the current directory are looked at. -/
def levelsTaken : Nat := 4

/-- The size in bytes from which on a file's content is left out. -/
def contentLimit : Nat := 65536

/-- The content of a file, as far as it is a text of moderate size. -/
def contentOf (path : String) (size : Nat) : IO String := do
  if contentLimit ≤ size then return ""
  let bytes ← IO.FS.readBinFile path
  return (String.fromUTF8? bytes).getD ""

/-- Adds what stands under a route on disk; scripts are taken to be executable. -/
def takeEntries (tree : FileTree) (route : Route) : Nat → IO FileTree
  | 0 => return tree
  | levels + 1 => do
    let entries ← (← IO.FS.realPath route.text).readDir
    entries.foldlM (fun tree entry => do
      let place := route ++ [entry.fileName]
      let metadata ← entry.path.symlinkMetadata
      match metadata.type with
      | .dir => takeEntries (tree.insert place .directory) place levels
      | .file =>
        let content ← contentOf place.text metadata.byteSize.toNat
        return tree.insert place (.file content (content.startsWith "#!"))
      | .symlink => return tree.insert place (.link (← IO.FS.realPath place.text).toString)
      | .other => return tree) tree

/-- The environment variables that stand in for options. -/
def takeEnvironment : IO CommandLine.Environment := do
  let names := CommandLine.Parameter.shared.filterMap (·.environmentName?)
  let found ← names.mapM fun name => return (name, ← IO.getEnv name)
  return found.filterMap fun (name, value) => value.map fun value => (name, value)

/-- The world around the current directory. -/
def takeWorld : IO World := do
  let current : Route := Files.names (← IO.currentDir).toString
  let tree := (Program.bareTree.makeDirectories [] current.text).2
  let tree ← takeEntries tree current levelsTaken
  return { tree := tree, current := current, environment := ← takeEnvironment, stores := [] }

/-- Writes what a world has gained since it was taken, outer directories first. -/
def leaveWorld (before after : World) : IO Unit :=
  after.tree.entries.reverse.forM fun (route, entry) => do
    if (before.tree.entry? route).isSome then return
    match entry with
    | .directory => IO.FS.createDirAll route.text
    | .file content _ => IO.FS.writeFile route.text content
    | .link _ => return

def main (arguments : List String) : IO UInt32 := do
  let world ← takeWorld
  let (outcome, after) := runProgram arguments world
  leaveWorld world after
  match outcome with
  | .printed _ => IO.print (outcome.stdout?.getD "")
  | .information usage => IO.print usage.message
  | .misuse usage => IO.eprintln ("error: " ++ usage.message)
  | .failed report => IO.eprint ("Error: " ++ report.text)
  | .crashed overflow => IO.eprintln overflow.message
  return UInt32.ofNat outcome.code
