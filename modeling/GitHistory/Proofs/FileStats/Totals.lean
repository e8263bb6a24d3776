import GitHistory.Proofs.FileStats.Changes

/-! What statistics add up to, and the paths with binary content in them. A total is exact as long
as it is a count, and an overflow if it is not. -/
namespace GitHistory

namespace FileStats

/-- Whether a total is what it says: the sum if that is a count, and an overflow otherwise. -/
structure IsTotal (sum : Nat) (total : Except Overflow UInt64) : Prop where
  ok_iff : ∀ count, total = .ok count ↔ count.toNat = sum
  overflow_iff : total = .error .addition ↔ UInt64.size ≤ sum

theorem foldlM_sum (counts : List UInt64) (start : UInt64)
    (small : start.toNat + (counts.map UInt64.toNat).sum < UInt64.size) :
    ∃ total, counts.foldlM (fun total count =>
        if total.toNat + count.toNat < UInt64.size then Except.ok (total + count)
        else .error Overflow.addition) start = .ok total ∧
      total.toNat = start.toNat + (counts.map UInt64.toNat).sum := by
  induction counts generalizing start with
  | nil => exact ⟨start, rfl, rfl⟩
  | cons count rest ih =>
    rw [List.map_cons, List.sum_cons, ← Nat.add_assoc] at small ⊢
    have fits : start.toNat + count.toNat < UInt64.size := by omega
    have added : (start + count).toNat = start.toNat + count.toNat := by
      rw [UInt64.toNat_add, Nat.mod_eq_of_lt fits]
    rw [List.foldlM_cons, if_pos fits]
    rw [← added] at small ⊢
    exact ih (start + count) small

/-- Counts whose sum is a count are added up to it. -/
theorem sum_eq_ok {counts : List UInt64} (small : (counts.map UInt64.toNat).sum < UInt64.size) :
    ∃ total, sum counts = .ok total ∧ total.toNat = (counts.map UInt64.toNat).sum := by
  have added := foldlM_sum counts 0 (by simpa using small)
  simpa [sum] using added

theorem foldlM_overflow (counts : List UInt64) (start : UInt64)
    (large : UInt64.size ≤ start.toNat + (counts.map UInt64.toNat).sum) :
    counts.foldlM (fun total count =>
      if total.toNat + count.toNat < UInt64.size then Except.ok (total + count)
      else .error Overflow.addition) start = .error .addition := by
  induction counts generalizing start with
  | nil =>
    have small : start.toNat < UInt64.size := start.toNat_lt
    rw [List.map_nil, List.sum_nil] at large
    omega
  | cons count rest ih =>
    rw [List.map_cons, List.sum_cons, ← Nat.add_assoc] at large
    rw [List.foldlM_cons]
    by_cases fits : start.toNat + count.toNat < UInt64.size
    · have added : (start + count).toNat = start.toNat + count.toNat := by
        rw [UInt64.toNat_add, Nat.mod_eq_of_lt fits]
      rw [if_pos fits]
      rw [← added] at large
      exact ih (start + count) large
    · rw [if_neg fits]
      rfl

/-- Adding up never wraps around. -/
theorem isTotal_sum (counts : List UInt64) : IsTotal (counts.map UInt64.toNat).sum (sum counts) := by
  by_cases small : (counts.map UInt64.toNat).sum < UInt64.size
  · obtain ⟨total, added, exactly⟩ := sum_eq_ok small
    constructor
    · intro count
      rw [added, ← exactly, Except.ok.injEq, ← UInt64.toNat_inj]
      exact eq_comm
    · simp [added, small]
  · have large := Nat.le_of_not_lt small
    have overflow : sum counts = .error .addition :=
      foldlM_overflow counts 0 (by simpa using large)
    constructor
    · intro count
      have counted : count.toNat < UInt64.size := count.toNat_lt
      rw [overflow]
      constructor
      · intro found
        cases found
      · omega
    · simp [overflow, large]

theorem addedLines_eq (stats : FileStats) : stats.addedLines =
    ((stats.entries.map fun entry => entry.2.additions).map UInt64.toNat).sum := by
  rw [List.map_map]
  rfl

theorem deletedLines_eq (stats : FileStats) : stats.deletedLines =
    ((stats.entries.map fun entry => entry.2.deletions).map UInt64.toNat).sum := by
  rw [List.map_map]
  rfl

theorem isTotal_totalAdditions (stats : FileStats) :
    IsTotal stats.addedLines stats.totalAdditions := by
  rw [addedLines_eq]
  exact isTotal_sum _

theorem isTotal_totalDeletions (stats : FileStats) :
    IsTotal stats.deletedLines stats.totalDeletions := by
  rw [deletedLines_eq]
  exact isTotal_sum _

variable {stats : FileStats}

theorem totalAdditions_eq_ok (small : stats.addedLines < UInt64.size) :
    ∃ total, stats.totalAdditions = .ok total ∧ total.toNat = stats.addedLines := by
  rw [addedLines_eq] at small ⊢
  exact sum_eq_ok small

theorem totalDeletions_eq_ok (small : stats.deletedLines < UInt64.size) :
    ∃ total, stats.totalDeletions = .ok total ∧ total.toNat = stats.deletedLines := by
  rw [deletedLines_eq] at small ⊢
  exact sum_eq_ok small

theorem binaryFiles_ascending (stats : FileStats) :
    stats.binaryFiles.Pairwise PathBefore := by
  rw [binaryFiles, List.pairwise_map]
  exact stats.ascending.filter _

theorem mem_binaryFiles_iff (stats : FileStats) (path : String) :
    path ∈ stats.binaryFiles ↔ stats.get? path = some .binary := by
  rw [← mem_entries_iff, binaryFiles, List.mem_map]
  constructor
  · rintro ⟨⟨path, stat⟩, member, rfl⟩
    obtain ⟨listed, binary⟩ := List.mem_filter.mp member
    cases stat with
    | text => cases binary
    | binary => exact listed
  · intro listed
    exact ⟨(path, .binary), List.mem_filter.mpr ⟨listed, rfl⟩, rfl⟩

end FileStats

end GitHistory
