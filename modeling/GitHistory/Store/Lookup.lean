import GitHistory.Store.Object
import GitHistory.Store.Signature

/-!
Reading objects. A commit is readable if its committer line makes sense, a tag if it states a
kind. From a tag one gets to what it is about, which has to be of the kind that the tag states,
and from a commit to its tree.
-/
namespace GitHistory

/-- What the text of a commit says. -/
structure CommitText where
  committer : Signature
  message : List UInt8
  deriving Repr, DecidableEq

namespace CommitText

def lineFeed : UInt8 := 10

/-- What follows the first empty line; the text starts with a line. -/
def afterHeader : List UInt8 → List UInt8
  | [] => []
  | first :: rest => if first == lineFeed then rest else afterLine rest
where
  /-- What follows the first empty line behind the line that is being read. -/
  afterLine : List UInt8 → List UInt8
    | [] => []
    | first :: rest =>
      if first == lineFeed then
        match rest with
        | [] => []
        | next :: more => if next == lineFeed then more else afterLine more
      else afterLine rest

end CommitText

/-- Reads the text of a commit: the line of the committer, lines that mean nothing here, an
empty line, and the message. -/
def CommitObject.read (commit : CommitObject) : Except StoreFault CommitText :=
  let text := commit.committer ++ [CommitText.lineFeed, CommitText.lineFeed] ++ commit.message
  let line := text.takeWhile (· != CommitText.lineFeed)
  match Signature.parse line with
  | .error fault => .error fault.toStoreFault
  | .ok committer => .ok ⟨committer, CommitText.afterHeader (text.drop (line.length + 1))⟩

/-- What a name or a step leads to; trees are told apart from nothing but other kinds. -/
inductive Target where
  | commit (id : ObjectId)
  | tag (id : ObjectId)
  | blob (id : ObjectId)
  | tree
  deriving Repr, DecidableEq

def Target.kind : Target → ObjectKind
  | .commit _ => .commit
  | .tag _ => .tag
  | .blob _ => .blob
  | .tree => .tree

/-- The id of an object; the trees here need none. -/
def Target.id : Target → ObjectId
  | .commit id => id
  | .tag id => id
  | .blob id => id
  | .tree => ""

namespace Store

def missing (id : ObjectId) : StoreFault :=
  ⟨.notFound, .database, s!"object not found - no match for id ({id})"⟩

/-- Reads an object of any kind. -/
def load (store : Store) (id : ObjectId) : Except StoreFault Target :=
  match store.object? id with
  | none => .error (missing id)
  | some (.blob _) => .ok (.blob id)
  | some (.commit commit) => commit.read.map fun _ => .commit id
  | some (.tag _ (some _)) => .ok (.tag id)
  | some (.tag _ none) =>
    .error ⟨.invalid, .tag, "failed to parse tag: invalid object type"⟩

/-- Reads an object that has to be of a kind. -/
def loadAs (store : Store) (kind : ObjectKind) (id : ObjectId) : Except StoreFault Target :=
  match store.object? id with
  | none => .error (missing id)
  | some object =>
    if object.kind = kind then store.load id
    else .error ⟨.notFound, .invalid, "the requested type does not match the type in the ODB"⟩

/-- A commit and what its text says. -/
def readCommit (store : Store) (id : ObjectId) :
    Except StoreFault (CommitObject × CommitText) := do
  let _ ← store.loadAs .commit id
  match store.commit? id with
  | some commit => pure (commit, ← commit.read)
  | none => throw (missing id)

/-- The object that another one is about. -/
def about (store : Store) : Target → Except StoreFault Target
  | .commit _ => .ok .tree
  | .tag id =>
    match store.object? id with
    | some (.tag target (some kind)) => store.loadAs kind target
    | _ => .error (missing id)
  | .blob _ => .error ⟨.peel, .object, "a blob is about nothing"⟩
  | .tree => .error ⟨.peel, .object, "a tree is about nothing"⟩

/-- What is wanted at the end of a chain of tags: an object of a kind, or any but a tag. -/
abbrev Wanted := Option ObjectKind

def isWanted (wanted : Wanted) (target : Target) : Bool :=
  match wanted with
  | some kind => target.kind = kind
  | none => target.kind ≠ .tag

/-- A failure to get from an object to what is wanted, with the code of its cause. -/
def unpeelable (target : Target) (wanted : Wanted) (code : StoreCode) : StoreFault :=
  let name := (wanted.map ObjectKind.name).getD ""
  let number := (wanted.map fun kind => (kind.number : Int)).getD (-2)
  ⟨code, .object, s!"the git_object of id '{target.id}' can not be successfully peeled into " ++
    s!"a {name} (git_object_t={number})."⟩

/-- Goes from object to object until one is wanted. -/
def follow (store : Store) (wanted : Wanted) : Nat → Target → Except StoreFault Target
  | 0, target => .error (unpeelable target wanted .peel)
  | turns + 1, target => do
    let next ← store.about target
    if isWanted wanted next then pure next else store.follow wanted turns next

/-- Whether one may set out from a kind to another one at all. -/
def leadsTo (kind wanted : ObjectKind) : Bool :=
  match kind with
  | .commit => wanted = .commit ∨ wanted = .tree
  | .tag => true
  | kind => kind = wanted

/-- Objects that a chain may have. -/
def chainLimit (store : Store) : Nat := store.objects.length + 2

/-- The object of a kind that an object is or leads to. -/
def peel (store : Store) (kind : ObjectKind) (target : Target) : Except StoreFault Target :=
  if target.kind = kind then .ok target
  else if !leadsTo target.kind kind then .error (unpeelable target (some kind) .invalidSpec)
  else
    (store.follow (some kind) store.chainLimit target).mapError fun fault =>
      unpeelable target (some kind) fault.code

/-- The object at the end of a chain of tags. -/
def untag (store : Store) (target : Target) : Except StoreFault Target :=
  if target.kind ≠ .tag then .ok target
  else
    (store.follow none store.chainLimit target).mapError fun fault =>
      unpeelable target none fault.code

/-- The commit that an object is or is a tag of. -/
def peelToCommit (store : Store) (target : Target) : Except StoreFault ObjectId :=
  (store.peel .commit target).map Target.id

/-- One of the parents of a commit, counted from zero. -/
def parent (store : Store) (id : ObjectId) (number : Nat) : Except StoreFault ObjectId :=
  match (store.parents id)[number]? with
  | some parent => (store.loadAs .commit parent).map Target.id
  | none => .error ⟨.notFound, .invalid, s!"parent {number} does not exist"⟩

/-- The ancestor of so many generations ago, by first parents. -/
def ancestor (store : Store) : Nat → ObjectId → Except StoreFault ObjectId
  | 0, id => .ok id
  | generations + 1, id => do store.ancestor generations (← store.parent id 0)

end Store

end GitHistory
