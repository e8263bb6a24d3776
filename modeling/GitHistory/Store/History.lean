import GitHistory.Store.Revision

/-!
The order of a history query. A commit comes out only after all its children, and of those that
may come out a newest one is first. What comes out is what the walk from the tip took, less what
is hidden behind the boundary.
-/
namespace GitHistory

namespace Walk

/-- Whether no child of a commit is among the others. -/
def isReady (walk : Walk) (others : List ObjectId) (id : ObjectId) : Bool :=
  !others.any fun other => (walk.parents other).contains id

/-- The parents of a commit that may come out next to others. -/
def readyParents (walk : Walk) (others : List ObjectId) (id : ObjectId) : List ObjectId :=
  (walk.parents id).reverse.eraseDups.reverse.filter fun parent =>
    others.contains parent && walk.isReady others parent

/-- Takes commits out one by one. Those that may come out wait in a heap; `remaining` are all
that are left. -/
def ordered (walk : Walk) : Nat → List ObjectId → List ObjectId → List ObjectId
  | 0, _, _ => []
  | turns + 1, heap, remaining =>
    match Heap.pop? walk.isNewer heap with
    | none => []
    | some (id, heap) =>
      let remaining := remaining.erase id
      let heap := (walk.readyParents remaining id).foldl (Heap.insert walk.isNewer) heap
      id :: walk.ordered turns heap remaining

/-- Commits that were taken in the order they come out, without those that are hidden. -/
def outcome (walk : Walk) (taken : List ObjectId) : List ObjectId :=
  let heap := Heap.ofList walk.isNewer (taken.filter (walk.isReady taken))
  (walk.ordered taken.length heap taken).filter fun id => !walk.isHidden id

end Walk

namespace Store

/-- The first id is the second one's or a descendant's. -/
inductive Reaches (store : Store) : ObjectId → ObjectId → Prop where
  | here (id : ObjectId) : Reaches store id id
  | parent {id next last : ObjectId} (up : next ∈ store.parents id)
      (further : Reaches store next last) : Reaches store id last

/-- The ids of a history in the order they come out. -/
def history (store : Store) (tip : ObjectId) (hidden : Option ObjectId) :
    Except StoreFault (List ObjectId) :=
  (store.walkFrom [tip] hidden).map fun (walk, taken) => walk.outcome taken

/-- The commit whose history is left out of a range: the boundary's first parent. -/
def hidden (store : Store) (boundary : Option String) : Except GitError (Option ObjectId) := do
  match boundary with
  | none => pure none
  | some oldest =>
    let id ← store.resolve oldest
    match store.parents id with
    | parent :: _ =>
      let hidden := store.load parent >>= store.committish
      some <$> hidden.mapError GitError.store
    | [] => throw (.notFound (oldest ++ "^"))

/-- The ids of a range, newest first, at most as many as asked for; if none are asked for there
is no walk. -/
def range (store : Store) (range : RevisionRange) (count : Nat) :
    Except GitError (List ObjectId) := do
  let tip ← store.resolve range.tip
  let hidden ← store.hidden range.boundary?
  if count = 0 then pure []
  else
    let history ← (store.history tip hidden).mapError .store
    pure (history.take count)

end Store

end GitHistory
