import GitHistory.Files.Tree

/-!
What commands read from files.
-/
namespace GitHistory.Shell

/-- Finds what stands at a path. -/
abbrev Look := String → Except IoError Entry

/-- Finds entries of a tree from a directory. -/
def lookFrom (tree : FileTree) (current : Route) : Look :=
  fun path => (tree.find current true path).map (·.2)

/-- What `cat` writes for its operands, its complaints, and its exit code. -/
def concatenated (look : Look) (input : List UInt8) (called : String) :
    List String → List UInt8 × String × Nat
  | [] => ([], "", 0)
  | file :: files =>
    let (bytes, complaint, code) :=
      if file = "-" then (input, "", 0)
      else
        match look file with
        | .ok (.file content _) => (Text.utf8 content.toList, "", 0)
        | .ok _ => ([], s!"{called}: {file}: Is a directory\n", 1)
        | .error error => ([], s!"{called}: {file}: {error.text}\n", 1)
    let (more, complaints, later) := concatenated look input called files
    (bytes ++ more, complaint ++ complaints, max code later)

/-- Whether a test of a file holds; `none` stands for an unknown test. -/
def fileTest? (look : Look) (test path : String) : Option Bool :=
  match test, look path with
  | "-e", found => some found.isOk
  | "-f", .ok (.file ..) => some true
  | "-f", _ => some false
  | "-d", .ok .directory => some true
  | "-d", _ => some false
  | "-s", .ok (.file content _) => some (content != "")
  | "-s", found => some found.isOk
  | _, _ => none

end GitHistory.Shell
