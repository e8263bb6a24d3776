import GitHistory.Proofs.FileStats.Entries
import GitHistory.Proofs.FileStats.Records

/-! Records of the NUL form, written as git writes them. Reading takes every mixture of records
back, whatever stands in their paths, and keeps the last count of each path. -/
namespace GitHistory.Numstat

/-- A text that may stand between two NUL characters. -/
structure Field where
  chars : List Char
  clean : '\x00' ∉ chars

/-- A field that may be the path of a count. -/
structure Path extends Field where
  nonempty : chars ≠ []

inductive Record where
  | plain (stat : FileStat) (path : Path)
  | rename (stat : FileStat) (old : Field) (new : Path)

/-- The count columns of a record, each with its tab. -/
def columns : FileStat → List Char
  | .text additions deletions =>
    Text.decimal additions ++ '\t' :: (Text.decimal deletions ++ ['\t'])
  | .binary => ['-', '\t', '-', '\t']

namespace Record

def stat : Record → FileStat
  | .plain stat _ => stat
  | .rename stat _ _ => stat

/-- The path that a record counts for. -/
def path : Record → String
  | .plain _ path => String.ofList path.chars
  | .rename _ _ new => String.ofList new.chars

/-- A record with a NUL character behind each of its fields. -/
def written : Record → List Char
  | .plain stat path => columns stat ++ path.chars ++ ['\x00']
  | .rename stat old new =>
    columns stat ++ ['\x00'] ++ old.chars ++ ['\x00'] ++ new.chars ++ ['\x00']

/-- The fields of a record. -/
def fields : Record → List (List Char)
  | .plain stat path => [columns stat ++ path.chars]
  | .rename stat old new => [columns stat, old.chars, new.chars]

end Record

/-! Columns. -/

theorem not_mem_decimal {c : Char} (other : c.isDigit = false) (count : UInt64) :
    c ∉ Text.decimal count := by
  intro member
  rw [Text.isDigit_of_mem_decimal member] at other
  cases other

theorem not_mem_columns (stat : FileStat) : '\x00' ∉ columns stat := by
  cases stat with
  | text additions deletions => simp [columns, not_mem_decimal (c := '\x00') (by decide)]
  | binary => decide

theorem trim_decimal (count : UInt64) : Text.trim (Text.decimal count) = Text.decimal count := by
  apply Text.trim_eq_self
  intro c member
  exact Text.isBlank_of_isDigit (Text.isDigit_of_mem_decimal member)

theorem stat_decimal (additions deletions : UInt64) :
    stat (Text.decimal additions) (Text.decimal deletions) = .text additions deletions := by
  rw [stat, trim_decimal, trim_decimal, Text.readCount?_decimal, Text.readCount?_decimal]

/-- A record is read as the count of its columns and the rest of its text. -/
theorem record_columns (stat : FileStat) (path : List Char) :
    record (columns stat ++ path) = .ok (stat, path) := by
  cases stat with
  | text additions deletions =>
    have clean := not_mem_decimal (c := '\t') (by decide)
    have laid : columns (.text additions deletions) ++ path =
        Text.decimal additions ++ '\t' :: (Text.decimal deletions ++ '\t' :: path) := by
      simp [columns]
    rw [laid, record_laid (clean additions) (clean deletions), stat_decimal]
  | binary => rfl

/-- Columns do not start with a line end. -/
theorem dropWhile_columns (stat : FileStat) (path : List Char) :
    (columns stat ++ path).dropWhile (· == '\n') = columns stat ++ path := by
  cases stat with
  | text additions deletions =>
    cases written : Text.decimal additions with
    | nil => exact absurd written (Text.decimal_ne_nil additions)
    | cons first rest =>
      have digit : first.isDigit = true :=
        Text.isDigit_of_mem_decimal (written ▸ List.mem_cons_self)
      have solid : (first == '\n') = false := by
        apply beq_false_of_ne
        rintro rfl
        exact absurd digit (by decide)
      simp [columns, written, solid]
  | binary => rfl

/-! Records. -/

theorem splitOn_written (record : Record) (rest : List Char) :
    Text.splitOn '\x00' (record.written ++ rest) = record.fields ++ Text.splitOn '\x00' rest := by
  cases record with
  | plain stat path =>
    have clean : '\x00' ∉ columns stat ++ path.chars := by
      simp [not_mem_columns, path.clean]
    simpa [Record.written, Record.fields] using Text.splitOn_append clean rest
  | rename stat old new =>
    simp [Record.written, Record.fields, Text.splitOn_append (not_mem_columns stat),
      Text.splitOn_append old.clean, Text.splitOn_append new.clean]

theorem splitOn_flatMap_written (records : List Record) :
    Text.splitOn '\x00' (records.flatMap Record.written) =
      records.flatMap Record.fields ++ [[]] := by
  induction records with
  | nil => rfl
  | cons record rest ih =>
    rw [List.flatMap_cons, List.flatMap_cons, splitOn_written, ih, List.append_assoc]

/-- The fields of a record are read as its count, and reading goes on behind them. -/
theorem fieldEntries_fields (record : Record) (rest : List (List Char)) :
    fieldEntries (record.fields ++ rest) =
      (fieldEntries rest).map ((record.path, record.stat) :: ·) := by
  cases record with
  | plain stat path =>
    have recorded : Numstat.record ((columns stat ++ path.chars).dropWhile (· == '\n')) =
        .ok (stat, path.chars) := by rw [dropWhile_columns, record_columns]
    exact fieldEntries_plain recorded path.nonempty rest
  | rename stat old new =>
    have recorded : Numstat.record ((columns stat).dropWhile (· == '\n')) = .ok (stat, []) := by
      rw [← List.append_nil (columns stat), dropWhile_columns, record_columns]
    exact fieldEntries_rename recorded new.nonempty rest

theorem fieldEntries_written (records : List Record) :
    fieldEntries (records.flatMap Record.fields ++ [[]]) =
      .ok (records.map fun record => (record.path, record.stat)) := by
  induction records with
  | nil => rfl
  | cons record rest ih =>
    rw [List.flatMap_cons, List.append_assoc, fieldEntries_fields, ih]
    rfl

/-- Reading the records of a list gives the last count of every path that is in it, and no
other. -/
theorem parseFields_written (records : List Record) :
    ∃ stats, parseFields (String.ofList (records.flatMap Record.written)) = .ok stats ∧
      ∀ path stat,
        (stats.get? path = some stat ↔ IsLast Record.path Record.stat records path stat) ∧
        ((path, stat) ∈ stats.entries ↔ IsLast Record.path Record.stat records path stat) := by
  refine ⟨FileStats.ofList (records.map fun record => (record.path, record.stat)), ?_, ?_⟩
  · rw [parseFields, String.toList_ofList, splitOn_flatMap_written, fieldEntries_written]
    rfl
  · intro path stat
    rw [FileStats.mem_entries_iff, FileStats.get?_ofList, lookup_reverse_map_iff]
    exact ⟨Iff.rfl, Iff.rfl⟩

end GitHistory.Numstat
