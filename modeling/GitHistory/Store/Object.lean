/-!
The objects of a repository and the names that lead to them. An object is known by its id;
what a tree holds is kept with the commit that it belongs to.
-/
namespace GitHistory

/-- An id as text; those that objects are known by are full. -/
abbrev ObjectId := String

namespace ObjectId

/-- Hexadecimal digits, the letters among them small. -/
def alphabet : List Char :=
  ['0', '1', '2', '3', '4', '5', '6', '7', '8', '9', 'a', 'b', 'c', 'd', 'e', 'f']

/-- Forty hexadecimal digits, the letters among them small. -/
structure IsFull (id : ObjectId) : Prop where
  length : id.toList.length = 40
  digits : ∀ c ∈ id.toList, c ∈ alphabet

instance (id : ObjectId) : Decidable (IsFull id) :=
  decidable_of_iff (id.toList.length = 40 ∧ id.toList.all alphabet.contains = true)
    ⟨fun both => ⟨both.1, by simpa using both.2⟩,
      fun full => ⟨full.length, by simpa using full.digits⟩⟩

end ObjectId

inductive FileMode where
  | regular
  | executable
  | link
  deriving Repr, DecidableEq

/-- A file of a tree; a link holds its target as content. -/
structure TreeFile where
  path : List UInt8
  content : List UInt8
  mode : FileMode
  deriving Repr, DecidableEq

/-- A commit as it was written. Its text is the committer line, an empty line and the message;
where one of them holds line ends, another reading of the text may come out. -/
structure CommitObject where
  parents : List ObjectId
  /-- The committer line, without its keyword and line end. -/
  committer : List UInt8
  message : List UInt8
  files : List TreeFile
  deriving Repr, DecidableEq

/-- Kinds of objects. -/
inductive ObjectKind where
  | commit
  | tree
  | blob
  | tag
  deriving Repr, DecidableEq

namespace ObjectKind

def name : ObjectKind → String
  | .commit => "commit"
  | .tree => "tree"
  | .blob => "blob"
  | .tag => "tag"

def number : ObjectKind → Nat
  | .commit => 1
  | .tree => 2
  | .blob => 3
  | .tag => 4

def ofName? : String → Option ObjectKind
  | "commit" => some .commit
  | "tree" => some .tree
  | "blob" => some .blob
  | "tag" => some .tag
  | _ => none

end ObjectKind

inductive Object where
  | commit (commit : CommitObject)
  | blob (content : List UInt8)
  /-- A tag states which kind of object it is about; it may state none that exists. -/
  | tag (target : ObjectId) (kind : Option ObjectKind)
  deriving Repr, DecidableEq

def Object.kind : Object → ObjectKind
  | .commit _ => .commit
  | .blob _ => .blob
  | .tag .. => .tag

/-- Where HEAD points: to a name, which need not exist yet, or straight to a commit. -/
inductive Head where
  | symbolic (name : String)
  | detached (id : ObjectId)
  deriving Repr, DecidableEq

structure Store where
  objects : List (ObjectId × Object)
  references : List (String × ObjectId)
  head : Head
  /-- Remote repositories by name, with their URLs. -/
  remotes : List (String × String)
  /-- Objects are known by full ids. -/
  full : ∀ entry ∈ objects, ObjectId.IsFull entry.1
  deriving Repr, DecidableEq

namespace Store

/-- A repository right after it was made. -/
def fresh : Store := ⟨[], [], .symbolic "refs/heads/master", [], nofun⟩

def object? (store : Store) (id : ObjectId) : Option Object := store.objects.lookup id

/-- What is known by an id is known by a full one. -/
theorem isFull_of_object? {store : Store} {id : ObjectId} {object : Object}
    (found : store.object? id = some object) : ObjectId.IsFull id := by
  obtain ⟨before, after, all, -⟩ := List.lookup_eq_some_iff.mp found
  refine store.full (id, object) ?_
  rw [all]
  exact List.mem_append_right before List.mem_cons_self

def commit? (store : Store) (id : ObjectId) : Option CommitObject :=
  match store.object? id with
  | some (.commit commit) => some commit
  | _ => none

/-- The parents of a commit; anything else has none. -/
def parents (store : Store) (id : ObjectId) : List ObjectId :=
  match store.commit? id with
  | some commit => commit.parents
  | none => []

/-- Number of links from commits to parents. -/
def linkCount (store : Store) : Nat :=
  store.objects.foldl
    (fun count entry =>
      match entry.2 with
      | .commit commit => count + commit.parents.length
      | _ => count)
    0

end Store

end GitHistory
