import GitHistory.Error
import GitHistory.Text.Split

/-!
Paths as texts. Slashes separate names; a doubled slash and the name `.` mean nothing, except
that two slashes in front stay two. Making a path absolute keeps `..`, whose meaning depends on
what links there are.
-/
namespace GitHistory.Files

def isAbsolute (path : String) : Bool := path.toList.head? == some '/'

def endsWithSlash (path : String) : Bool := path.toList.getLast? == some '/'

/-- What stands between the slashes. -/
def parts (path : String) : List String := (Text.splitOn '/' path.toList).map String.ofList

/-- A part that leads somewhere. -/
def isName (part : String) : Bool := part != "" && part != "."

/-- The names of a path in order. -/
def names (path : String) : List String := (parts path).filter isName

/-- Names with slashes between them. -/
def joinNames (names : List String) : String := "/".intercalate names

/-- A path inside a directory; an absolute one stays what it is. -/
def inside (directory path : String) : String :=
  if isAbsolute path then path
  else if directory.isEmpty || endsWithSlash directory then directory ++ path
  else directory ++ "/" ++ path

/-- The slashes in front: none, one, or exactly two. -/
def rootOf (path : String) : String :=
  match path.toList with
  | '/' :: '/' :: '/' :: _ => "/"
  | '/' :: '/' :: _ => "//"
  | '/' :: _ => "/"
  | _ => ""

/-- The path from the root, with `current` for the current directory. -/
def absolute (current path : String) : Except IoError String :=
  if path.isEmpty then .error .emptyPath
  else
    let plain := joinNames (names path)
    let full :=
      if isAbsolute path then rootOf path ++ plain
      else if plain.isEmpty then current
      else inside current plain
    .ok (if endsWithSlash path && !endsWithSlash full then full ++ "/" else full)

/-- The paths around one whose names are given last name first, nearest first. -/
private def aroundNames (root : String) : List String → List String
  | [] => []
  | [_] => []
  | _ :: name :: rest =>
    (root ++ joinNames (name :: rest).reverse) :: aroundNames root (name :: rest)

/-- The paths of the directories around a path, nearest first; neither the root nor the current
directory is among them. -/
def around (path : String) : List String :=
  aroundNames (if isAbsolute path then "/" else "") (names path).reverse

end GitHistory.Files
