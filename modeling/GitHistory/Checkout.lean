import GitHistory.Files.Tree

/-!
Opening a checkout: a directory that holds git metadata, either an entry `.git`, whatever it
is, or the layout of a bare repository. Of the file system only lookups are used, which may fail
for any reason.
-/
namespace GitHistory

/-- The absolute path of a directory with git metadata. -/
structure Checkout where
  root : String
  deriving Repr, DecidableEq

/-- What an entry is, whatever it holds. -/
inductive EntryKind where
  | directory
  | file
  | link
  | other
  deriving Repr, DecidableEq

def Entry.kind : Entry → EntryKind
  | .directory => .directory
  | .file .. => .file
  | .link _ => .link

/-- What paths lead to, with a link at the very end followed or not. -/
abbrev Lookup := Bool → String → Except IoError EntryKind

/-- Lookups in a tree from a directory. -/
def FileTree.lookup (tree : FileTree) (current : Route) : Lookup := fun follow path =>
  (tree.find current follow path).map fun found => found.2.kind

/-- Whether a path leads to an entry of some kind, through links. A lookup that fails tells no
kind. -/
def Lookup.leadsTo (look : Lookup) (kind : EntryKind) (path : String) : Bool :=
  match look true path with
  | .ok found => found == kind
  | .error _ => false

/-- Whether a directory has the layout of a bare repository. -/
def hasBareLayout (look : Lookup) (root : String) : Bool :=
  look.leadsTo .file (Files.inside root "HEAD") &&
    look.leadsTo .directory (Files.inside root "objects")

/-- The checkout at an absolute path. Only metadata that is known to be missing counts as
missing. -/
def checkoutAt (look : Lookup) (root : String) : Except GitError Checkout :=
  match look false (Files.inside root ".git") with
  | .error .notFound =>
    if hasBareLayout look root then .ok ⟨root⟩ else .error (.notARepository root)
  | _ => .ok ⟨root⟩

/-- Opens a checkout by what lookups tell. -/
def openCheckoutBy (look : Lookup) (current path : String) : Except GitError Checkout :=
  match Files.absolute current path with
  | .error source => .error (.io path source)
  | .ok root => checkoutAt look root

/-- Opens a checkout in a tree. -/
def openCheckout (tree : FileTree) (current : Route) (path : String) :
    Except GitError Checkout :=
  openCheckoutBy (tree.lookup current) current.text path

end GitHistory
