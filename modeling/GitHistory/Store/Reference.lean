import GitHistory.Store.Lookup
import GitHistory.Text.Split
import GitHistory.Text.Utf8

/-!
Names of references. A short name is tried in front of several directories; a name that may not
be the name of a reference is passed over. References are files, so names are limited in the
ways that files are.
-/
namespace GitHistory

namespace ReferenceName

/-- Whether a character may stand in a name. -/
def isNameChar (c : Char) : Bool :=
  ' ' < c && !"~^:\\?[*".toList.contains c

/-- Whether a text has two characters side by side. -/
def hasPair (first second : Char) : List Char → Bool
  | a :: b :: rest => (a == first && b == second) || hasPair first second (b :: rest)
  | _ => false

/-- Whether a text may stand between slashes. -/
def isPart (part : List Char) : Bool :=
  !part.isEmpty && part.head? != some '.' && part.all isNameChar &&
    !hasPair '.' '.' part && !hasPair '@' '\x7b' part &&
    !".lock".toList.reverse.isPrefixOf part.reverse

/-- Whether a part looks like a name at the top: capitals, with underscores between them. -/
def isTop (part : List Char) : Bool :=
  part.all (fun c => c.isUpper || c == '_') && part.head? != some '_' && part.getLast? != some '_'

/-- Whether a text may be the name of a reference. At the top there are only names like HEAD,
and no directory has such a name. -/
def isValid (name : String) : Bool :=
  let parts := Text.splitOn '/' name.toList
  parts.all isPart && name.toList.getLast? != some '.' &&
    match parts with
    | [only] => isTop only
    | first :: _ => !isTop first
    | [] => false

/-- Bytes that a name may have. -/
def lengthLimit : Nat := 1023

/-- Bytes that a part may have. -/
def partLimit : Nat := 255

/-- Names that a short name may stand for, in the order they are tried. Without a name HEAD is
meant. -/
def candidates (name : String) : List String :=
  if name.isEmpty then ["HEAD"]
  else [
    name, "refs/" ++ name, "refs/tags/" ++ name, "refs/heads/" ++ name, "refs/remotes/" ++ name,
    "refs/remotes/" ++ name ++ "/HEAD"]

/-- Every beginning of a path that is neither empty nor all of it. -/
def above : List (List Char) → List (List (List Char))
  | first :: next :: rest => [first] :: (above (next :: rest)).map (first :: ·)
  | _ => []

/-- The directories that a name is under, from the top. -/
def directories (name : String) : List (List (List Char)) :=
  above (Text.splitOn '/' name.toList)

end ReferenceName

/-- A reference and the object that it leads to. -/
structure Reference where
  name : String
  target : ObjectId
  deriving Repr, DecidableEq

namespace Store

/-- The reference of a full name; a symbolic HEAD stands for the reference that it names. -/
def reference? (store : Store) (name : String) : Option Reference :=
  let direct := fun (name : String) =>
    (store.references.lookup name).map fun target => Reference.mk name target
  if name = "HEAD" then
    match store.head with
    | .symbolic target => direct target
    | .detached id => some ⟨name, id⟩
  else direct name

/-- Directories among the metadata of every repository. -/
private def fixedDirectories : List (List (List Char)) :=
  ["refs", "refs/heads", "refs/tags", "info", "hooks", "objects", "objects/info",
    "objects/pack"].map fun name => Text.splitOn '/' name.toList

/-- Whether there is such a directory among the metadata. -/
def hasDirectory (store : Store) (directory : List (List Char)) : Bool :=
  directory.isEmpty || fixedDirectories.contains directory ||
    store.references.any fun (name, _) =>
      (ReferenceName.directories name).contains directory

/-- Whether a look at the file of a name fails on a part of it that is too long. -/
def isBeyondFiles (store : Store) (name : String) : Bool :=
  let parts := Text.splitOn '/' name.toList
  let isShort := fun (part : List Char) =>
    decide ((Text.utf8 part).length ≤ ReferenceName.partLimit)
  !parts.all isShort && store.hasDirectory (parts.takeWhile isShort)

/-- Files among the metadata that no reference is in. -/
private def foreignFiles : List String := ["hooks/README.sample", "info/exclude"]

/-- The reference of a full name, or why there is none. -/
def followName (store : Store) (name : String) : Except StoreFault Reference :=
  if ReferenceName.lengthLimit < (Text.utf8 name.toList).length then
    .error ⟨.bufferSize, .reference,
      s!"the provided buffer is too short to hold the normalization of '{name}'"⟩
  else if store.isBeyondFiles name then
    .error ⟨.invalidSpec, .system, s!"invalid path for filesystem '{name}'"⟩
  else
    match store.reference? name with
    | some reference => .ok reference
    | none =>
      if foreignFiles.contains name then
        .error ⟨.generic, .reference, s!"corrupted loose reference file: {name}"⟩
      else .error ⟨.notFound, .reference, s!"reference '{name}' not found"⟩

/-- Tries names one after the other until one is found or fails for good; `last` is how the one
before failed. -/
def firstFound (store : Store) (last : StoreFault) : List String → Except StoreFault Reference
  | [] => .error last
  | name :: rest =>
    if !ReferenceName.isValid name then
      store.firstFound ⟨.invalidSpec, .reference, s!"'{name}' is no valid reference name"⟩ rest
    else
      match store.followName name with
      | .ok reference => .ok reference
      | .error fault =>
        if fault.code = .notFound then store.firstFound fault rest else .error fault

/-- The reference of a short name. -/
def named (store : Store) (name : String) : Except StoreFault Reference :=
  store.firstFound ⟨.notFound, .reference, s!"no reference found for shorthand '{name}'"⟩
    (ReferenceName.candidates name)

end Store

end GitHistory
