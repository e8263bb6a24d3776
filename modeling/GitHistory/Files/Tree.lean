import GitHistory.Files.Path
import GitHistory.Text.Blank
import GitHistory.Text.Utf8

/-!
A file tree and what paths lead to in it. Directories, files and symbolic links stand under
their route, the names from the root; a path is walked name by name, links are followed on the
way, and a walk through more links than allowed fails.
-/
namespace GitHistory

/-- Names from the root, outermost first; none of them is `.` or `..`. -/
abbrev Route := List String

inductive Entry where
  | directory
  | file (content : String) (executable : Bool)
  | link (target : String)
  deriving Repr, DecidableEq

structure FileTree where
  entries : List (Route × Entry)
  deriving Repr, DecidableEq

namespace Route

/-- The absolute path of a route. -/
def text (route : Route) : String := "/" ++ Files.joinNames route

end Route

namespace FileTree

/-- The root alone. -/
def empty : FileTree := ⟨[]⟩

/-- What stands under a route; the root is always a directory. -/
def entry? (tree : FileTree) (route : Route) : Option Entry :=
  if route.isEmpty then some .directory else tree.entries.lookup route

/-- Puts an entry under a route, over what was there. -/
def insert (tree : FileTree) (route : Route) (entry : Entry) : FileTree :=
  ⟨(route, entry) :: tree.entries.filter (·.1 != route)⟩

/-- Where a path leads: to an entry, or to a free name in a directory. -/
inductive Place where
  | present (route : Route) (entry : Entry)
  | free (directory : Route) (name : String)
  deriving Repr, DecidableEq

/-- Longest name, in bytes. -/
def nameLimit : Nat := 255

/-- Length in bytes from which on a path is too long. -/
def pathLimit : Nat := 4096

/-- Links that one walk may pass through. -/
def linkLimit : Nat := 40

/-- Walks from a directory along the parts of a path. A link at the very end is followed only
if asked for. -/
def walk (tree : FileTree) (follow : Bool) (links : Nat) (directory : Route) :
    List String → Except IoError Place
  | [] => .ok (.present directory .directory)
  | part :: rest =>
    if part = "" ∨ part = "." then tree.walk follow links directory rest
    else if part = ".." then tree.walk follow links directory.dropLast rest
    else if nameLimit < Text.utf8Size part.toList then .error .nameTooLong
    else
      match tree.entry? (directory ++ [part]) with
      | none =>
        if rest.all (· == "") then .ok (.free directory part) else .error .notFound
      | some .directory => tree.walk follow links (directory ++ [part]) rest
      | some (.file content executable) =>
        if rest.isEmpty then .ok (.present (directory ++ [part]) (.file content executable))
        else .error .notADirectory
      | some (.link target) =>
        if rest.isEmpty && !follow then .ok (.present (directory ++ [part]) (.link target))
        else
          match links with
          | 0 => .error .tooManyLinks
          | links + 1 =>
            tree.walk follow links (if Files.isAbsolute target then [] else directory)
              (Files.parts target ++ rest)
  termination_by parts => (links, parts.length)

/-- Where a path leads from the directory `current`. -/
def locate (tree : FileTree) (current : Route) (follow : Bool) (path : String) :
    Except IoError Place :=
  if path.toList.contains '\x00' then .error .nulInPath
  else if path.isEmpty then .error .notFound
  else if pathLimit ≤ Text.utf8Size path.toList then .error .nameTooLong
  else
    tree.walk follow linkLimit (if Files.isAbsolute path then [] else current) (Files.parts path)

/-- The entry that a path leads to, and its route. -/
def find (tree : FileTree) (current : Route) (follow : Bool) (path : String) :
    Except IoError (Route × Entry) := do
  match ← tree.locate current follow path with
  | .present route entry => pure (route, entry)
  | .free .. => throw .notFound

/-- Whether a path leads to anything, through links. -/
def holds (tree : FileTree) (current : Route) (path : String) : Bool :=
  (tree.find current true path).isOk

def isFile (tree : FileTree) (current : Route) (path : String) : Bool :=
  match tree.find current true path with
  | .ok (_, .file ..) => true
  | _ => false

def isDirectory (tree : FileTree) (current : Route) (path : String) : Bool :=
  match tree.find current true path with
  | .ok (_, .directory) => true
  | _ => false

/-- Makes one directory at a free name. -/
def makeDirectory (tree : FileTree) (current : Route) (path : String) :
    Except IoError FileTree := do
  let plain := String.ofList (Text.trimEnd (· == '/') path.toList)
  match ← tree.locate current false (if plain.isEmpty then path else plain) with
  | .free directory name => pure (tree.insert (directory ++ [name]) .directory)
  | .present .. => throw .alreadyExists

/-- Makes a directory; one that is there already will do. -/
def ensureDirectory (tree : FileTree) (current : Route) (path : String) :
    Except IoError Unit × FileTree :=
  match tree.makeDirectory current path with
  | .ok tree => (.ok (), tree)
  | .error error => (if tree.isDirectory current path then .ok () else .error error, tree)

/-- Makes a directory, after those of the paths around it that are missing. -/
def ensureFrom (current : Route) :
    List String → String → FileTree → Except IoError Unit × FileTree
  | [], path, tree => tree.ensureDirectory current path
  | next :: above, path, tree =>
    match tree.ensureDirectory current path with
    | (.error .notFound, tree) =>
      match ensureFrom current above next tree with
      | (.ok (), tree) => tree.ensureDirectory current path
      | failed => failed
    | outcome => outcome

/-- Makes a directory and those around it, as far as they are missing. What was made before
something fails stays. The empty path needs nothing. -/
def makeDirectories (tree : FileTree) (current : Route) (path : String) :
    Except IoError Unit × FileTree :=
  if path.isEmpty then (.ok (), tree) else ensureFrom current (Files.around path) path tree

/-- Puts a file or a link at a path, with the directories around it. -/
def put (tree : FileTree) (current : Route) (path : String) (entry : Entry) : FileTree :=
  let tree :=
    match Files.around path with
    | [] => tree
    | above :: _ => (tree.makeDirectories current above).2
  match tree.locate current true path with
  | .ok (.free directory name) => tree.insert (directory ++ [name]) entry
  | .ok (.present route (.file ..)) => tree.insert route entry
  | _ => tree

end FileTree

end GitHistory
