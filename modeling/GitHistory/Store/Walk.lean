import GitHistory.Heap
import GitHistory.Store.Lookup

/-!
Walking back through history from some commits, and away from a hidden one. Commits wait in a
queue, newer ones before older ones, and the parents of each that leaves it are put in, hidden
if it is. When nothing but hidden commits waits, all older than the last one taken, the walk
goes on for a few turns only. So a commit that the hidden one reaches through much older ones
may be taken all the same.
-/
namespace GitHistory

/-- A commit as far as a walk is concerned. -/
structure Link where
  time : Int
  parents : List ObjectId
  deriving Repr, DecidableEq

/-- What a walk knows. -/
structure Walk where
  /-- Commits that were read. -/
  links : List (ObjectId × Link) := []
  hidden : List ObjectId := []
  /-- Commits that have been in the queue. -/
  seen : List ObjectId := []
  /-- Commits whose parents have been put into the queue. -/
  expanded : List ObjectId := []
  deriving Repr, DecidableEq

namespace Walk

def time (walk : Walk) (id : ObjectId) : Int :=
  ((walk.links.lookup id).map Link.time).getD 0

/-- The parents of a commit, as far as it was read. -/
def parents (walk : Walk) (id : ObjectId) : List ObjectId :=
  ((walk.links.lookup id).map Link.parents).getD []

def isHidden (walk : Walk) (id : ObjectId) : Bool := walk.hidden.contains id

def hide (walk : Walk) (id : ObjectId) : Walk :=
  if walk.isHidden id then walk else { walk with hidden := id :: walk.hidden }

/-- Hides commits and what they are known to reach; one that is hidden already counts as done. -/
def hideAll (walk : Walk) : Nat → List ObjectId → Walk
  | 0, _ => walk
  | _, [] => walk
  | turns + 1, id :: rest =>
    if walk.isHidden id then walk.hideAll turns rest
    else (walk.hide id).hideAll turns (walk.parents id ++ rest)

/-- Number of links known. -/
def linkCount (walk : Walk) : Nat :=
  walk.links.foldl (fun count link => count + link.2.parents.length) 0

/-- Hides what a commit is known to reach. -/
def hideBehind (walk : Walk) (id : ObjectId) : Walk :=
  let parents := walk.parents id
  walk.hideAll (parents.length + walk.linkCount + 1) parents

/-- Puts a commit into a queue, behind those that are not older. -/
def enqueue (walk : Walk) (id : ObjectId) : List ObjectId → List ObjectId
  | [] => [id]
  | first :: rest =>
    if walk.time first < walk.time id then id :: first :: rest
    else first :: walk.enqueue id rest

def isNewer (walk : Walk) (first second : ObjectId) : Bool :=
  decide (walk.time second < walk.time first)

/-- Turns that are taken in a row with nothing but hidden commits waiting. -/
def patience : Nat := 5

/-- The turns left after a hidden commit left the queue; `last` is the time of the last commit
that was taken. -/
def patienceLeft (walk : Walk) (last : Int) (left : Nat) (queue : List ObjectId) : Nat :=
  match queue with
  | [] => 0
  | first :: _ =>
    if last ≤ walk.time first then patience
    else if queue.any fun id => !walk.isHidden id || last < walk.time id then patience
    else left - 1

end Walk

namespace Store

/-- Reads a commit for a walk. -/
def link (store : Store) (id : ObjectId) : Except StoreFault Link :=
  match store.object? id with
  | none => .error (missing id)
  | some (.commit commit) =>
    commit.read.map fun text => ⟨text.committer.seconds, commit.parents⟩
  | some _ => .error ⟨.generic, .invalid, "object is no commit object"⟩

/-- Takes notice of a commit. -/
def visit (store : Store) (walk : Walk) (id : ObjectId) : Except StoreFault Walk :=
  if (walk.links.lookup id).isSome then .ok walk
  else (store.link id).map fun link => { walk with links := (id, link) :: walk.links }

/-- Puts a parent into the queue; behind a hidden commit it is hidden, and put in again if it
was there. -/
def receive (store : Store) (behindHidden : Bool) (state : Walk × List ObjectId) (id : ObjectId) :
    Except StoreFault (Walk × List ObjectId) := do
  let (walk, queue) := state
  if behindHidden then
    let walk := (← store.visit (walk.hide id) id).hideBehind id
    pure ({ walk with seen := id :: walk.seen }, walk.enqueue id queue)
  else
    let walk ← store.visit walk id
    if walk.seen.contains id then pure (walk, queue)
    else pure ({ walk with seen := id :: walk.seen }, walk.enqueue id queue)

/-- Puts the parents of a commit into the queue, once. -/
def expand (store : Store) (walk : Walk) (id : ObjectId) (queue : List ObjectId) :
    Except StoreFault (Walk × List ObjectId) :=
  if walk.expanded.contains id then .ok (walk, queue)
  else
    let walk := { walk with expanded := id :: walk.expanded }
    (walk.parents id).foldlM (store.receive (walk.isHidden id)) (walk, queue)

/-- Goes on until the queue is empty or patience is at an end; gives the commits taken. -/
def advance (store : Store) (last : Int) (left : Nat) :
    Nat → Walk → List ObjectId → Except StoreFault (Walk × List ObjectId)
  | 0, walk, _ => .ok (walk, [])
  | _, walk, [] => .ok (walk, [])
  | turns + 1, walk, id :: queue => do
    let (walk, queue) ← store.expand walk id queue
    if walk.isHidden id then
      let walk := walk.hideBehind id
      match walk.patienceLeft last left queue with
      | 0 => pure (walk, [])
      | left => store.advance last left turns walk queue
    else
      let (walk, taken) ← store.advance (walk.time id) left turns walk queue
      pure (walk, id :: taken)

/-- The time from which the first commit is always on. -/
def endOfTime : Int := 9223372036854775807

/-- Puts the commits of a start into the queue in their order. -/
def enter (store : Store) (state : Walk × List ObjectId) (id : ObjectId) :
    Except StoreFault (Walk × List ObjectId) := do
  let (walk, queue) := state
  let walk ← store.visit walk id
  let walk := if walk.isHidden id then walk.hideBehind id else walk
  if walk.seen.contains id then pure (walk, queue)
  else pure ({ walk with seen := id :: walk.seen }, queue ++ [id])

/-- Walks from some commits, away from a hidden one. Gives the commits taken, among which there
may be some that turned out to be hidden. -/
def walkFrom (store : Store) (tips : List ObjectId) (hidden : Option ObjectId) :
    Except StoreFault (Walk × List ObjectId) := do
  let start := hidden.toList ++ tips.reverse
  let (walk, queue) ← start.foldlM store.enter ({ hidden := hidden.toList : Walk }, [])
  store.advance endOfTime Walk.patience (start.length + store.linkCount + 1) walk queue

/-- Whether a fault says that an object is neither a commit nor a tag of one. -/
def isNoCommit (fault : StoreFault) : Bool :=
  [.notFound, .invalidSpec, .peel].contains fault.code

/-- The commit that a walk from an object starts at. -/
def committish (store : Store) (target : Target) : Except StoreFault ObjectId :=
  (store.peelToCommit target).mapError fun fault =>
    if isNoCommit fault then ⟨fault.code, .invalid, "object is not a committish"⟩ else fault

/-- The commits that references lead to, in the order of their names; other objects are passed
over. -/
def referredCommits (store : Store) : Except StoreFault (List ObjectId) := do
  let references := store.references.mergeSort fun a b => !decide (b.1 < a.1)
  let found ← references.mapM fun (_, id) => do
    match store.peelToCommit (← store.load id) with
    | .ok id => pure (some id)
    | .error fault => if isNoCommit fault then pure none else throw fault
  pure (found.filterMap id)

end Store

end GitHistory
