/-!
Heaps: lists in which the entries below entry `i` are `2 * i + 1` and `2 * i + 2`, and none comes
before the one above it. Of entries that are worth the same, the shape of the heap tells which
is taken first.
-/
namespace GitHistory.Heap

variable {α : Type} (before : α → α → Bool)

/-- Whether there are two such entries and the first one comes before the second. -/
def isBefore (entries : List α) (first second : Nat) : Bool :=
  match entries[first]?, entries[second]? with
  | some first, some second => before first second
  | _, _ => false

/-- Two entries change places. -/
def exchange (entries : List α) (first second : Nat) : List α :=
  match entries[first]?, entries[second]? with
  | some atFirst, some atSecond => (entries.set first atSecond).set second atFirst
  | _, _ => entries

/-- Lets an entry rise for so many levels at most. -/
def rise : Nat → Nat → List α → List α
  | 0, _, entries => entries
  | levels + 1, index, entries =>
    let above := (index - 1) / 2
    if isBefore before entries index above then rise levels above (exchange entries index above)
    else entries

/-- Lets an entry sink for so many levels at most, on the side of the entry that comes first. -/
def sink : Nat → Nat → List α → List α
  | 0, _, entries => entries
  | levels + 1, index, entries =>
    let left := 2 * index + 1
    let below := if isBefore before entries (left + 1) left then left + 1 else left
    if isBefore before entries below index then sink levels below (exchange entries index below)
    else entries

def insert (entries : List α) (entry : α) : List α :=
  rise before entries.length entries.length (entries ++ [entry])

/-- The first entry and the heap without it. -/
def pop? : List α → Option (α × List α)
  | [] => none
  | first :: rest =>
    match rest.getLast? with
    | none => some (first, [])
    | some last => some (first, sink before rest.length 0 (last :: rest.dropLast))

def ofList (entries : List α) : List α := entries.foldl (insert before) []

/-- The entries of a heap in the order they are taken. -/
def drained : Nat → List α → List α
  | 0, _ => []
  | turns + 1, entries =>
    match pop? before entries with
    | none => []
    | some (first, entries) => first :: drained turns entries

/-- Entries in the order in which a heap gives them back. -/
def sorted (entries : List α) : List α := drained before entries.length (ofList before entries)

end GitHistory.Heap
