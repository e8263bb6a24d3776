import GitHistory.Store.Commit
import GitHistory.Store.Diff
import GitHistory.Request
import GitHistory.World

/-!
The operations on a repository done in-process. A cancelled context stops each of them before
anything else; then the repository is opened, and revisions are checked one by one as they are
looked up.
-/
namespace GitHistory.InProcess

/-- What stands in front of a path in a file that says where metadata is. -/
def linkKeyword : List Char := "gitdir:".toList

/-- The path that a file in place of metadata points to. -/
def linkedPath? (content : String) : Option String :=
  let isSpace := fun (c : Char) => c.toNat = 32 ∨ 9 ≤ c.toNat ∧ c.toNat ≤ 13
  let text := Text.trimEnd (fun c => decide (isSpace c)) content.toList
  if linkKeyword.length < text.length ∧ linkKeyword.isPrefixOf text then
    some (String.ofList ((text.drop linkKeyword.length).dropWhile fun c => decide (isSpace c)))
  else none

/-- What an operation at a path fails with, if no repository could be opened there. -/
def openFailure (path : String) : OpenFault → GitError
  | .missing => .notARepository path
  | .store fault => .store fault

/-- The route that a path stands for, links resolved. -/
def routeOf (world : World) (current : Route) (path : String) : Except OpenFault Route :=
  match world.tree.find current true path with
  | .ok (route, _) => .ok route
  | .error .notFound => .error .missing
  | .error .notADirectory => .error .missing
  | .error .nulInPath => .error (.store Store.nulFault)
  | .error error =>
    .error (.store ⟨.generic, .system, s!"failed to resolve path '{path}': {error.text}"⟩)

/-- The metadata that a file in its place points to. -/
def linkedDirectory (world : World) (place : Route) (content : String) :
    Except OpenFault Route := do
  match linkedPath? content with
  | none =>
    throw (.store ⟨.generic, .repository,
      String.ofList ("the ".toList ++ Char.ofNat 96 :: ".git".toList ++ Char.ofNat 96 ::
        s!" file at '{place.text}' is malformed".toList)⟩)
  | some path =>
    let route ← routeOf world place.dropLast path
    if world.isGitDirectory route then pure route else throw .missing

/-- The metadata at a place, if there is any. -/
def metadataAt? (world : World) (place : Route) : Except OpenFault (Option Route) := do
  match world.tree.find [] true place.text with
  | .ok (route, .directory) => pure (if world.isGitDirectory route then some route else none)
  | .ok (_, .file content _) =>
    if place.getLast? = some ".git" then some <$> linkedDirectory world place content
    else pure none
  | _ => pure none

/-- The metadata of the repository in a directory: in its `.git`, or the directory itself. -/
def gitDirectoryIn (world : World) (directory : Route) : Except OpenFault Route := do
  match ← metadataAt? world (directory ++ [".git"]) with
  | some found => pure found
  | none =>
    match ← metadataAt? world directory with
    | some found => pure found
    | none => throw .missing

/-- The metadata of the repository at a path. -/
def gitDirectory (world : World) (path : String) : Except OpenFault Route := do
  gitDirectoryIn world (← routeOf world world.current path)

/-- Opens the repository at a path, in the tree if the path is a text. -/
def openStore (world : World) (path : RawPath) : Except GitError Store :=
  let opened :=
    match path.text? with
    | some text => (gitDirectory world text).map world.storeAt
    | none => world.elsewhere path
  opened.mapError (openFailure path.shown)

/-- Goes on unless the context is cancelled. -/
def unlessCancelled {α : Type} (caller : Caller) (go : Except GitError α) : Except GitError α :=
  if caller.cancelled then .error .cancelled else go

/-- The commits of a range in a checkout. -/
def commitsForRange (world : World) (caller : Caller) (root : RawPath) (request : Request) :
    Except GitError (List Commit) :=
  unlessCancelled caller do
    let store ← openStore world root
    store.commitsForRange root.shown
      (RevisionRange.resolve request.branchRef request.oldest request.newest) request.count.toNat

/-- The commit that a tag or a hash stands for. -/
def commitByReference (world : World) (caller : Caller) (root : RawPath) (reference : String) :
    Except GitError Commit :=
  unlessCancelled caller do
    (← openStore world root).commitByReference root.shown reference

/-- The change counts between two revisions, or of one. -/
def diffStats (world : World) (caller : Caller) (root : RawPath) (revision : String)
    (other : Option String) : Except GitError FileStats :=
  unlessCancelled caller do
    (← openStore world root).diffStats revision other

/-- Whether a path ends in the name of metadata. -/
def namesMetadata (path : String) : Bool :=
  let isEnd := fun (suffix : String) => suffix.toList.reverse.isPrefixOf path.toList.reverse
  isEnd "/.git" || isEnd "/.git/"

/-- Where the metadata of a new repository goes. -/
def newGitDirectory (root : String) (bare : Bool) : Except String String :=
  if root.isEmpty then
    .error (if bare then "failed to resolve path '': No such file or directory"
      else "cannot pick working directory for non-bare repository that isn't a '.git' directory")
  else .ok (if bare || namesMetadata root then root else Files.inside root ".git")

/-- Puts metadata where that of a new repository goes, as far as it is missing there; gives the
route of its directory. -/
def makeMetadata (world : World) (root : String) (bare : Bool) :
    Except String Route × World :=
  match newGitDirectory root bare with
  | .error reason => (.error reason, world)
  | .ok path =>
    match world.tree.locate world.current true path with
    | .ok (.present route .directory) => (.ok route, world.fillGitDirectory route)
    | .ok (.free directory name) =>
      let route := directory ++ [name]
      let world := world.setTree (world.tree.insert route .directory)
      (.ok route, world.fillGitDirectory route)
    | _ => (.error s!"failed to make directory '{path}': directory exists", world)

/-- Why the repository in a directory could not be opened. -/
def openReason (directory : Route) : OpenFault → String
  | .missing =>
    let place := Files.inside directory.text ""
    s!"could not find repository at '{place}'"
  | .store fault => fault.text

/-- Makes a repository, or keeps the one that is there, and opens it by the directory of its
metadata; gives the route of what was opened. A repository in the `.git` of that directory comes
first, here as in any opening. -/
def makeRepository (world : World) (root : String) (bare : Bool) :
    Except String Route × World :=
  match makeMetadata world root bare with
  | (.error reason, world) => (.error reason, world)
  | (.ok directory, world) =>
    match gitDirectoryIn world directory with
    | .ok route => (.ok route, world)
    | .error fault => (.error (openReason directory fault), world)

/-- Registers a remote repository as `origin`. -/
def addOrigin (store : Store) (url : String) : Except String Store :=
  if url.toList.contains '\x00' then .error Store.nulFault.text
  else if url.isEmpty then .error "cannot set empty URL"
  else if (store.remotes.lookup "origin").isSome then .error "remote 'origin' already exists"
  else .ok { store with remotes := ("origin", url) :: store.remotes }

/-- Makes a directory, a repository in it, and a remote named `origin`. What was made stays when
a later step fails. -/
def init (world : World) (caller : Caller) (root url : String) (bare : Bool) :
    Except GitError Unit × World :=
  if caller.cancelled then (.error .cancelled, world)
  else
    match world.makeDirectories root with
    | (.error source, world) => (.error (.io root source), world)
    | (.ok (), world) =>
      match makeRepository world root bare with
      | (.error reason, world) => (.error (.init root reason), world)
      | (.ok route, world) =>
        match addOrigin (world.storeAt route) url with
        | .error reason => (.error (.remote url reason), world)
        | .ok store => (.ok (), world.setStore route store)

end GitHistory.InProcess
