import GitHistory.Text.Utf8
import GitHistory.Error
import GitHistory.Json.Value

/-!
Change counts per file. The statistics of a diff hold each path once, ascending by the bytes
of the path, and a later count for a path replaces an earlier one.
-/
namespace GitHistory

/-- Lines added and deleted, or binary content, which has no lines. -/
inductive FileStat where
  | text (additions deletions : UInt64)
  | binary
  deriving Repr, DecidableEq

namespace FileStat

def isBinary : FileStat → Bool
  | .text .. => false
  | .binary => true

/-- Lines added; binary content counts as none. -/
def additions : FileStat → UInt64
  | .text additions _ => additions
  | .binary => 0

/-- Lines deleted; binary content counts as none. -/
def deletions : FileStat → UInt64
  | .text _ deletions => deletions
  | .binary => 0

def toJson : FileStat → Json.Value
  | .text additions deletions => .object [
      ("kind", .string "text"),
      ("additions", .number additions.toNat),
      ("deletions", .number deletions.toNat)]
  | .binary => .object [("kind", .string "binary")]

/-- The members of the JSON form in alphabetical order. -/
def toSortedJson : FileStat → Json.Value
  | .text additions deletions => .object [
      ("additions", .number additions.toNat),
      ("deletions", .number deletions.toNat),
      ("kind", .string "text")]
  | .binary => .object [("kind", .string "binary")]

end FileStat

/-- Order of paths: by their bytes. -/
def PathBefore (a b : String) : Prop :=
  Text.utf8 a.toList < Text.utf8 b.toList

instance (a b : String) : Decidable (PathBefore a b) :=
  inferInstanceAs (Decidable (Text.utf8 a.toList < Text.utf8 b.toList))

theorem PathBefore.trans {a b c : String} (first : PathBefore a b) (second : PathBefore b c) :
    PathBefore a c :=
  List.lt_trans first second

theorem PathBefore.irrefl (a : String) : ¬ PathBefore a a :=
  List.lt_irrefl _

/-- Of two different paths one comes first. -/
theorem PathBefore.of_ne {a b : String} (different : a ≠ b) (behind : ¬ PathBefore a b) :
    PathBefore b a := by
  refine Classical.byContradiction fun ahead => different ?_
  have same : Text.utf8 a.toList = Text.utf8 b.toList :=
    List.le_antisymm (List.not_lt.1 ahead) (List.not_lt.1 behind)
  exact String.toList_injective (Text.utf8_injective same)

/-- Puts an entry at its place, over an earlier one of the same path. -/
def insertEntry (path : String) (stat : FileStat) :
    List (String × FileStat) → List (String × FileStat)
  | [] => [(path, stat)]
  | (key, value) :: rest =>
    if PathBefore path key then (path, stat) :: (key, value) :: rest
    else if path = key then (path, stat) :: rest
    else (key, value) :: insertEntry path stat rest

theorem mem_insertEntry {path : String} {stat : FileStat} {entries : List (String × FileStat)}
    {entry : String × FileStat} (member : entry ∈ insertEntry path stat entries) :
    entry = (path, stat) ∨ entry ∈ entries := by
  induction entries with
  | nil => simpa [insertEntry] using member
  | cons head rest ih =>
    simp only [insertEntry] at member
    split at member
    · simpa using member
    · split at member
      · rcases List.mem_cons.1 member with same | inside
        · exact .inl same
        · exact .inr (List.mem_cons_of_mem _ inside)
      · rcases List.mem_cons.1 member with same | inside
        · exact .inr (same ▸ List.mem_cons_self)
        · exact (ih inside).imp id (List.mem_cons_of_mem _)

/-- Entries in ascending order of their paths. -/
abbrev Ascending (entries : List (String × FileStat)) : Prop :=
  entries.Pairwise fun a b => PathBefore a.1 b.1

theorem ascending_insertEntry (path : String) (stat : FileStat)
    {entries : List (String × FileStat)} (sorted : Ascending entries) :
    Ascending (insertEntry path stat entries) := by
  induction entries with
  | nil => simp [insertEntry, Ascending]
  | cons head rest ih =>
    obtain ⟨above, sorted⟩ := List.pairwise_cons.1 sorted
    simp only [insertEntry]
    split
    · rename_i before
      refine List.pairwise_cons.2 ⟨fun entry inside => ?_, List.pairwise_cons.2 ⟨above, sorted⟩⟩
      rcases List.mem_cons.1 inside with same | inside
      · exact same ▸ before
      · exact before.trans (above entry inside)
    · split
      · rename_i same
        exact List.pairwise_cons.2 ⟨fun entry inside => same ▸ above entry inside, sorted⟩
      · rename_i behind different
        refine List.pairwise_cons.2 ⟨fun entry inside => ?_, ih sorted⟩
        rcases mem_insertEntry inside with same | inside
        · exact same ▸ PathBefore.of_ne different behind
        · exact above entry inside

/-- Change counts by path. -/
structure FileStats where
  entries : List (String × FileStat)
  ascending : Ascending entries

namespace FileStats

def empty : FileStats := ⟨[], List.Pairwise.nil⟩

instance : Inhabited FileStats := ⟨empty⟩

instance : DecidableEq FileStats := fun a b =>
  if same : a.entries = b.entries then
    .isTrue (by cases a; cases b; cases same; rfl)
  else .isFalse fun equal => same (equal ▸ rfl)

/-- Records a count, over an earlier one of the same path. -/
def insert (path : String) (stat : FileStat) (stats : FileStats) : FileStats :=
  ⟨insertEntry path stat stats.entries, ascending_insertEntry path stat stats.ascending⟩

/-- Records a list of counts one after the other. -/
def insertAll (entries : List (String × FileStat)) (stats : FileStats) : FileStats :=
  entries.foldl (fun stats (path, stat) => stats.insert path stat) stats

def ofList (entries : List (String × FileStat)) : FileStats :=
  empty.insertAll entries

def get? (path : String) (stats : FileStats) : Option FileStat :=
  stats.entries.lookup path

def size (stats : FileStats) : Nat := stats.entries.length

def isEmpty (stats : FileStats) : Bool := stats.entries.isEmpty

/-- Adds counts up, unless the sum leaves the range of counts. -/
def sum (counts : List UInt64) : Except Overflow UInt64 :=
  counts.foldlM (fun total count =>
    if total.toNat + count.toNat < UInt64.size then .ok (total + count)
    else .error .addition) 0

def totalAdditions (stats : FileStats) : Except Overflow UInt64 :=
  sum (stats.entries.map fun entry => entry.2.additions)

def totalDeletions (stats : FileStats) : Except Overflow UInt64 :=
  sum (stats.entries.map fun entry => entry.2.deletions)

/-- Paths with binary content, ascending. -/
def binaryFiles (stats : FileStats) : List String :=
  (stats.entries.filter fun entry => entry.2.isBinary).map (·.1)

def toJson (stats : FileStats) : Json.Value :=
  .object (stats.entries.map fun (path, stat) => (path, stat.toJson))

/-- The JSON form with the members of every object in alphabetical order. -/
def toSortedJson (stats : FileStats) : Json.Value :=
  .object (stats.entries.map fun (path, stat) => (path, stat.toSortedJson))

end FileStats

end GitHistory
