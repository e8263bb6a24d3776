import Mathlib.Data.List.TakeWhile
import GitHistory.FileStats.Numstat
import GitHistory.Proofs.Text.Counts

/-! One record. A text is cut into two columns and a path or it is refused, and the columns are
lines just when both of them stand for a count. Among fields a record takes up one of them, or
three if its path is empty. -/
namespace GitHistory.Numstat

/-- What two columns count: lines where both stand for a count, and binary content otherwise. -/
inductive ColumnsCount (additions deletions : List Char) : FileStat → Prop where
  | text {added deleted : UInt64} (first : Text.IsCountColumn added additions)
      (second : Text.IsCountColumn deleted deletions) :
      ColumnsCount additions deletions (.text added deleted)
  | binary (uncounted : ∀ added deleted, Text.IsCountColumn added additions →
      ¬ Text.IsCountColumn deleted deletions) : ColumnsCount additions deletions .binary

variable {additions deletions text path : List Char}

theorem stat_eq_text_iff {added deleted : UInt64} :
    stat additions deletions = .text added deleted ↔
      Text.IsCountColumn added additions ∧ Text.IsCountColumn deleted deletions := by
  rw [← Text.readCount?_trim_iff, ← Text.readCount?_trim_iff, stat]
  split
  · rename_i first second added deleted
    simp [added, deleted]
  · rename_i uncounted
    simp only [reduceCtorEq, false_iff, not_and]
    exact uncounted added deleted

theorem columnsCount_stat (additions deletions : List Char) :
    ColumnsCount additions deletions (stat additions deletions) := by
  cases counted : stat additions deletions with
  | text added deleted =>
    obtain ⟨first, second⟩ := stat_eq_text_iff.mp counted
    exact .text first second
  | binary =>
    refine .binary fun added deleted first second => ?_
    rw [stat_eq_text_iff.mpr ⟨first, second⟩] at counted
    cases counted

theorem stat_eq_iff {counted : FileStat} :
    stat additions deletions = counted ↔ ColumnsCount additions deletions counted := by
  constructor
  · rintro rfl
    exact columnsCount_stat additions deletions
  · intro counts
    cases counts with
    | text first second => exact stat_eq_text_iff.mpr ⟨first, second⟩
    | binary uncounted =>
      cases counted : stat additions deletions with
      | text added deleted =>
        obtain ⟨first, second⟩ := stat_eq_text_iff.mp counted
        exact (uncounted added deleted first second).elim
      | binary => rfl

/-- A record is cut at its first two tabs, and nowhere else. -/
theorem record_laid (firstTab : '\t' ∉ additions) (secondTab : '\t' ∉ deletions)
    (path : List Char) :
    record (additions ++ '\t' :: (deletions ++ '\t' :: path)) =
      .ok (stat additions deletions, path) := by
  rw [record, Text.cut?_append firstTab]
  dsimp only
  rw [Text.cut?_append secondTab]

/-- A text is two columns and what is behind them, or it is refused. -/
theorem record_cases (text : List Char) :
    (∃ additions deletions path, text = additions ++ '\t' :: (deletions ++ '\t' :: path) ∧
      '\t' ∉ additions ∧ '\t' ∉ deletions) ∨
    ∃ reason, record text = .error (.decode reason) := by
  cases first : Text.cut? '\t' text with
  | none =>
    rw [record, first]
    exact .inr ⟨_, rfl⟩
  | some parts =>
    obtain ⟨additions, rest⟩ := parts
    cases second : Text.cut? '\t' rest with
    | none =>
      rw [record, first]
      dsimp only
      rw [second]
      exact .inr ⟨_, rfl⟩
    | some parts =>
      obtain ⟨deletions, path⟩ := parts
      obtain ⟨rfl, firstTab⟩ := Text.cut?_eq_some_iff.mp first
      obtain ⟨rfl, secondTab⟩ := Text.cut?_eq_some_iff.mp second
      exact .inl ⟨additions, deletions, path, rfl, firstTab, secondTab⟩

/-! Records among fields. -/

section
variable {field : List Char} {counted : FileStat}

theorem isEmpty_of_record (recorded : record text = .ok (counted, path)) :
    text.isEmpty = false := by
  cases text with
  | nil => cases recorded
  | cons => rfl

theorem fieldEntries_blank (lineEnds : ∀ c ∈ field, c = '\n') (rest : List (List Char)) :
    fieldEntries (field :: rest) = fieldEntries rest := by
  have nothing : field.dropWhile (· == '\n') = [] :=
    List.dropWhile_eq_nil_iff.mpr (by simpa using lineEnds)
  rw [fieldEntries, nothing]
  rfl

theorem fieldEntries_plain
    (recorded : record (field.dropWhile (· == '\n')) = .ok (counted, path)) (named : path ≠ [])
    (rest : List (List Char)) :
    fieldEntries (field :: rest) =
      (fieldEntries rest).map ((String.ofList path, counted) :: ·) := by
  rw [fieldEntries, isEmpty_of_record recorded, recorded]
  simp only [bind, Except.bind, List.isEmpty_eq_false_iff.mpr named]
  cases fieldEntries rest <;> rfl

theorem fieldEntries_rename {old new : List Char}
    (recorded : record (field.dropWhile (· == '\n')) = .ok (counted, [])) (named : new ≠ [])
    (rest : List (List Char)) :
    fieldEntries (field :: old :: new :: rest) =
      (fieldEntries rest).map ((String.ofList new, counted) :: ·) := by
  rw [fieldEntries, isEmpty_of_record recorded, recorded]
  simp only [bind, Except.bind, List.isEmpty_eq_false_iff.mpr named]
  cases fieldEntries rest <;> rfl

end

end GitHistory.Numstat
