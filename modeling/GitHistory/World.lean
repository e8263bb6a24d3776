import GitHistory.Files.RawPath
import GitHistory.Process.Spawn
import GitHistory.Store.Object

/-!
A machine together with the repositories on it. A repository is found by the route of the
directory that holds its metadata. All names in the tree are texts; what is at other paths is known
only by what comes of opening a repository there.
-/
namespace GitHistory

/-- Why no repository could be opened. -/
inductive OpenFault where
  | missing
  | store (fault : StoreFault)
  deriving Repr, DecidableEq

structure World extends Machine where
  stores : List (Route × Store)
  /-- What comes of opening the repository at a path that is no text. -/
  elsewhere : RawPath → Except OpenFault Store := fun _ => .error .missing

namespace World

/-- Whether the directory of a route has the layout of a repository's metadata. -/
def isGitDirectory (world : World) (route : Route) : Bool :=
  world.tree.isFile [] (route ++ ["HEAD"]).text &&
    world.tree.isDirectory [] (route ++ ["objects"]).text &&
    world.tree.isDirectory [] (route ++ ["refs"]).text

/-- The repository whose metadata stands under a route; one that nobody wrote to is fresh. -/
def storeAt (world : World) (route : Route) : Store :=
  (world.stores.lookup route).getD .fresh

/-- Keeps a repository under a route, over the one that was there. -/
def setStore (world : World) (route : Route) (store : Store) : World :=
  { world with stores := (route, store) :: world.stores.filter (·.1 != route) }

def setTree (world : World) (tree : FileTree) : World :=
  { world with tree := tree }

/-- Makes directories as far as they are missing. -/
def makeDirectories (world : World) (path : String) : Except IoError Unit × World :=
  let (made, tree) := world.tree.makeDirectories world.current path
  (made, world.setTree tree)

/-- The entries that metadata consists of. -/
def layout : List (String × Entry) := [
  ("HEAD", .file "ref: refs/heads/master\n" false),
  ("config", .file "" false),
  ("description", .file "" false),
  ("hooks", .directory),
  ("info", .directory),
  ("objects", .directory),
  ("refs", .directory)]

/-- Puts an entry under its name in a directory, unless something stands there. -/
def fill (directory : Route) (tree : FileTree) (item : String × Entry) : FileTree :=
  if (tree.entry? (directory ++ [item.1])).isSome then tree
  else tree.insert (directory ++ [item.1]) item.2

/-- Puts metadata into a directory, as far as it is missing. -/
def fillGitDirectory (world : World) (route : Route) : World :=
  world.setTree (layout.foldl (fill route) world.tree)

end World

end GitHistory
