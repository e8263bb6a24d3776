import GitHistory.Proofs.FileStats.Entries
import GitHistory.Store.Diff
import Mathlib.Algebra.Order.BigOperators.Group.List
import Mathlib.Algebra.Order.Group.Nat

/-! Statistics of a list of changes. Changes whose paths read the same share one entry, and the
last of them stands; so the lines of the others are in no sum. -/
namespace GitHistory

/-- Lines that a count has as added. -/
def FileStat.addedLines (stat : FileStat) : Nat := stat.additions.toNat

/-- Lines that a count has as deleted. -/
def FileStat.deletedLines (stat : FileStat) : Nat := stat.deletions.toNat

namespace Delta

/-- The path as text. -/
def key (delta : Delta) : String := Text.decodeUtf8Lossy delta.path

/-- Lines that come with a change; binary content has none. -/
def addedLines (delta : Delta) : Nat := if delta.isBinary then 0 else delta.additions

/-- Lines that go with a change; binary content has none. -/
def deletedLines (delta : Delta) : Nat := if delta.isBinary then 0 else delta.deletions

/-- Counts that fit are kept as they are. -/
theorem counts_stat {delta : Delta} (fitsAdded : delta.addedLines < UInt64.size)
    (fitsDeleted : delta.deletedLines < UInt64.size) :
    delta.stat.addedLines = delta.addedLines ∧ delta.stat.deletedLines = delta.deletedLines := by
  rw [addedLines] at fitsAdded ⊢
  rw [deletedLines] at fitsDeleted ⊢
  rw [stat]
  by_cases binary : delta.isBinary = true
  · rw [if_pos binary, if_pos binary, if_pos binary]
    exact ⟨rfl, rfl⟩
  · rw [if_neg binary] at fitsAdded fitsDeleted
    rw [if_neg binary, if_neg binary, if_neg binary]
    exact ⟨UInt64.toNat_ofNat_of_lt' fitsAdded, UInt64.toNat_ofNat_of_lt' fitsDeleted⟩

/-- A path that is text is its own key. -/
theorem key_eq {delta : Delta} {text : List Char} (isText : delta.path = Text.utf8 text) :
    delta.key = String.ofList text := by
  rw [key, isText, Text.decodeUtf8Lossy_utf8]

end Delta

/-- Lines that statistics count as added. -/
def FileStats.addedLines (stats : FileStats) : Nat :=
  (stats.entries.map fun entry => entry.2.addedLines).sum

/-- Lines that statistics count as deleted. -/
def FileStats.deletedLines (stats : FileStats) : Nat :=
  (stats.entries.map fun entry => entry.2.deletedLines).sum

/-- Changes that are followed by another one with the same key. -/
def overwritten : List Delta → List Delta
  | [] => []
  | delta :: rest =>
    if rest.any fun later => later.key = delta.key then delta :: overwritten rest
    else overwritten rest

/-- No two paths of some changes have the same key. -/
def KeptApart (changes : List Delta) : Prop :=
  ∀ first ∈ changes, ∀ second ∈ changes, first.path ≠ second.path → first.key ≠ second.key

instance (changes : List Delta) : Decidable (KeptApart changes) :=
  inferInstanceAs (Decidable (∀ first ∈ changes, ∀ second ∈ changes,
    first.path ≠ second.path → first.key ≠ second.key))

/-- Statistics in which no change of a list is lost. -/
structure AccountsFor (stats : FileStats) (changes : List Delta) : Prop where
  keys : KeptApart changes
  added : stats.addedLines = (changes.map Delta.addedLines).sum
  deleted : stats.deletedLines = (changes.map Delta.deletedLines).sum

theorem numstat_eq (changes : List Delta) :
    numstat changes = FileStats.ofList (changes.map fun delta => (delta.key, delta.stat)) := rfl

theorem replaced_changes (changes : List Delta) :
    replaced (changes.map fun delta => (delta.key, delta.stat)) =
      (overwritten changes).map fun delta => (delta.key, delta.stat) := by
  induction changes with
  | nil => rfl
  | cons delta rest ih =>
    have again : hasPath delta.key (rest.map fun delta => (delta.key, delta.stat)) =
        rest.any fun later => later.key = delta.key := by
      simp [hasPath, List.any_map, Function.comp_def]
    rw [List.map_cons, replaced, overwritten, again, ih]
    split <;> rfl

theorem overwritten_subset {changes : List Delta} {delta : Delta}
    (member : delta ∈ overwritten changes) : delta ∈ changes := by
  induction changes with
  | nil => cases member
  | cons first rest ih =>
    rw [overwritten] at member
    split at member
    · rcases List.mem_cons.mp member with rfl | member
      · exact List.mem_cons_self
      · exact List.mem_cons_of_mem _ (ih member)
    · exact List.mem_cons_of_mem _ (ih member)

theorem overwritten_eq_nil {changes : List Delta}
    (distinct : changes.Pairwise fun first second => first.key ≠ second.key) :
    overwritten changes = [] := by
  induction changes with
  | nil => rfl
  | cons delta rest ih =>
    obtain ⟨apart, distinct⟩ := List.pairwise_cons.mp distinct
    have once : (rest.any fun later => later.key = delta.key) = false := by
      simpa using fun later member => (apart later member).symm
    rw [overwritten, once]
    exact ih distinct

/-- What statistics sum up, together with the same of the overwritten changes, is the sum over
all changes. -/
theorem sum_numstat (size : FileStat → Nat) {lines : Delta → Nat} {changes : List Delta}
    (counted : ∀ delta ∈ changes, size delta.stat = lines delta) :
    ((numstat changes).entries.map fun entry => size entry.2).sum +
      ((overwritten changes).map lines).sum = (changes.map lines).sum := by
  have law := FileStats.sum_ofList size (changes.map fun delta => (delta.key, delta.stat))
  rw [replaced_changes, List.map_map, List.map_map] at law
  have all := List.map_congr_left counted
  have gone := List.map_congr_left fun delta member => counted delta (overwritten_subset member)
  rw [← all, ← gone]
  exact law

theorem counted_of_sum {changes : List Delta}
    (fitsAdded : (changes.map Delta.addedLines).sum < UInt64.size)
    (fitsDeleted : (changes.map Delta.deletedLines).sum < UInt64.size) :
    ∀ delta ∈ changes, delta.stat.addedLines = delta.addedLines ∧
      delta.stat.deletedLines = delta.deletedLines := by
  intro delta member
  have added := List.le_sum_of_mem (List.mem_map_of_mem (f := Delta.addedLines) member)
  have deleted := List.le_sum_of_mem (List.mem_map_of_mem (f := Delta.deletedLines) member)
  exact Delta.counts_stat (by omega) (by omega)

/-- Paths that are text are kept apart. -/
theorem keptApart_of_text {changes : List Delta}
    (texts : ∀ delta ∈ changes, ∃ text, delta.path = Text.utf8 text) : KeptApart changes := by
  intro first firstIn second secondIn different same
  obtain ⟨firstText, firstPath⟩ := texts first firstIn
  obtain ⟨secondText, secondPath⟩ := texts second secondIn
  rw [Delta.key_eq firstPath, Delta.key_eq secondPath] at same
  apply different
  rw [firstPath, secondPath, String.ofList_injective same]

/-- The statistics of a list of changes: each key has the count of the last change with it; the
lines that are in no sum are those of overwritten changes; and no change is lost just when paths
are kept apart and overwritten changes have no lines. With paths that are text, and each of them in
one change only, none is. -/
theorem numstat_accounting (changes : List Delta)
    (fitsAdded : (changes.map Delta.addedLines).sum < UInt64.size)
    (fitsDeleted : (changes.map Delta.deletedLines).sum < UInt64.size) :
    (∀ key stat, (key, stat) ∈ (numstat changes).entries ↔
      IsLast Delta.key Delta.stat changes key stat) ∧
    (numstat changes).addedLines + ((overwritten changes).map Delta.addedLines).sum =
      (changes.map Delta.addedLines).sum ∧
    (numstat changes).deletedLines + ((overwritten changes).map Delta.deletedLines).sum =
      (changes.map Delta.deletedLines).sum ∧
    (AccountsFor (numstat changes) changes ↔ KeptApart changes ∧
      ∀ delta ∈ overwritten changes, delta.addedLines = 0 ∧ delta.deletedLines = 0) ∧
    ((∀ delta ∈ changes, ∃ text, delta.path = Text.utf8 text) →
      (changes.map Delta.path).Nodup → AccountsFor (numstat changes) changes) := by
  have counted := counted_of_sum fitsAdded fitsDeleted
  have added : (numstat changes).addedLines + ((overwritten changes).map Delta.addedLines).sum =
      (changes.map Delta.addedLines).sum :=
    sum_numstat FileStat.addedLines fun delta member => (counted delta member).1
  have deleted : (numstat changes).deletedLines +
      ((overwritten changes).map Delta.deletedLines).sum =
      (changes.map Delta.deletedLines).sum :=
    sum_numstat FileStat.deletedLines fun delta member => (counted delta member).2
  have exactly : AccountsFor (numstat changes) changes ↔ KeptApart changes ∧
      ∀ delta ∈ overwritten changes, delta.addedLines = 0 ∧ delta.deletedLines = 0 := by
    constructor
    · intro accounts
      refine ⟨accounts.keys, ?_⟩
      intro delta member
      have addedHere := List.le_sum_of_mem (List.mem_map_of_mem (f := Delta.addedLines) member)
      have deletedHere := List.le_sum_of_mem (List.mem_map_of_mem (f := Delta.deletedLines) member)
      have sameAdded := accounts.added
      have sameDeleted := accounts.deleted
      omega
    · rintro ⟨apart, empty⟩
      have noneAdded : ((overwritten changes).map Delta.addedLines).sum = 0 := by
        apply List.sum_eq_zero
        simpa using fun delta member => (empty delta member).1
      have noneDeleted : ((overwritten changes).map Delta.deletedLines).sum = 0 := by
        apply List.sum_eq_zero
        simpa using fun delta member => (empty delta member).2
      exact ⟨apart, by omega, by omega⟩
  refine ⟨?_, added, deleted, exactly, ?_⟩
  · intro key stat
    rw [FileStats.mem_entries_iff, numstat_eq, FileStats.get?_ofList, lookup_reverse_map_iff]
  · intro texts once
    have apart := keptApart_of_text texts
    have distinct : changes.Pairwise fun first second => first.key ≠ second.key := by
      refine (List.pairwise_map.mp once).imp_of_mem ?_
      intro first second firstIn secondIn different
      exact apart first firstIn second secondIn different
    refine exactly.mpr ⟨apart, ?_⟩
    rw [overwritten_eq_nil distinct]
    simp

/-- A file that turned into a link, and two files of which one has a path that is no text. -/
theorem numstat_accounting_collisions :
    let changes : List Delta := [
      ⟨[97], some ⟨[97], [120, 10, 121, 10], .regular⟩, none⟩,
      ⟨[97], none, some ⟨[97], [116], .link⟩⟩,
      ⟨[239, 191, 189], none, some ⟨[239, 191, 189], [120, 10], .regular⟩⟩,
      ⟨[255], none, some ⟨[255], [120, 10, 121, 10], .regular⟩⟩]
    ((changes.map Delta.addedLines).sum < UInt64.size ∧
      (changes.map Delta.deletedLines).sum < UInt64.size) ∧
    (numstat changes).addedLines + 1 = 4 ∧ (numstat changes).deletedLines + 2 = 2 ∧
    ¬ AccountsFor (numstat changes) changes := by
  intro changes
  have fits : (changes.map Delta.addedLines).sum < UInt64.size ∧
      (changes.map Delta.deletedLines).sum < UInt64.size := by decide +kernel
  obtain ⟨-, added, deleted, exactly, -⟩ := numstat_accounting changes fits.1 fits.2
  have lost : ((overwritten changes).map Delta.addedLines).sum = 1 ∧
      ((overwritten changes).map Delta.deletedLines).sum = 2 := by decide +kernel
  have all : (changes.map Delta.addedLines).sum = 4 ∧
      (changes.map Delta.deletedLines).sum = 2 := by decide +kernel
  refine ⟨fits, by omega, by omega, ?_⟩
  intro accounts
  have apart := (exactly.mp accounts).1
  revert apart
  decide +kernel

/-- A file of two lines that turned into a link: the statistics have no deleted lines. -/
theorem numstat_type_change_loses_lines :
    ¬ AccountsFor
      (numstat (deltas [⟨[97], [120, 10, 121, 10], .regular⟩] [⟨[97], [116], .link⟩]))
      (deltas [⟨[97], [120, 10, 121, 10], .regular⟩] [⟨[97], [116], .link⟩]) := by
  have changes : deltas [⟨[97], [120, 10, 121, 10], .regular⟩] [⟨[97], [116], .link⟩] =
      [⟨[97], some ⟨[97], [120, 10, 121, 10], .regular⟩, none⟩,
        ⟨[97], none, some ⟨[97], [116], .link⟩⟩] := by
    rw [deltas, pathsOf, List.mergeSort_of_pairwise (by decide)]
    rfl
  rw [changes]
  intro accounts
  have deleted := accounts.deleted
  revert deleted
  decide +kernel

end GitHistory
