import GitHistory.Proofs.FileStats.Numstat
import GitHistory.Proofs.Text.Counts
import GitHistory.Proofs.Text.Lines

/-! Rows of two count columns and a path, in lines and in fields that end with NUL. Whatever stands in
the columns, both forms are read as the same statistics. -/
namespace GitHistory.Numstat

/-- A text that may stand in a column before the path, in either form. -/
structure Column where
  chars : List Char
  noTab : '\t' ∉ chars
  noLineEnd : '\n' ∉ chars
  noNul : '\x00' ∉ chars

/-- A path that may stand at the end of a line. -/
structure LinePath extends Path where
  noLineEnd : '\n' ∉ chars
  noReturn : chars.getLast? ≠ some '\r'

/-- A row that is not blank. -/
structure Row where
  additions : Column
  deletions : Column
  path : LinePath
  solid : ∃ c ∈ additions.chars ++ deletions.chars ++ path.chars, Text.isBlank c = false

namespace Row

/-- The columns with a tab between them. -/
def text (row : Row) : List Char :=
  row.additions.chars ++ '\t' :: (row.deletions.chars ++ '\t' :: row.path.chars)

/-- A row as a line. -/
def line (row : Row) : List Char := Text.ended row.text

/-- A row as a field. -/
def field (row : Row) : List Char := row.text ++ ['\x00']

/-- The path that a row counts for. -/
def key (row : Row) : String := String.ofList row.path.chars

def stat (row : Row) : FileStat := Numstat.stat row.additions.chars row.deletions.chars

variable (row : Row)

theorem clean : '\n' ∉ row.text ∧ '\x00' ∉ row.text := by
  have lineEnds := And.intro row.additions.noLineEnd
    (And.intro row.deletions.noLineEnd row.path.noLineEnd)
  have nuls := And.intro row.additions.noNul (And.intro row.deletions.noNul row.path.clean)
  constructor
  · simpa [text] using lineEnds
  · simpa [text] using nuls

theorem isBlankText_text : Text.isBlankText row.text = false := by
  obtain ⟨c, member, solid⟩ := row.solid
  apply Bool.eq_false_iff.mpr
  intro blank
  have inText : c ∈ row.text := by
    simp only [List.append_assoc, List.mem_append] at member
    simp only [text, List.mem_append, List.mem_cons]
    rcases member with inFirst | inSecond | inPath
    · exact .inl inFirst
    · exact .inr (.inr (.inl inSecond))
    · exact .inr (.inr (.inr (.inr inPath)))
  rw [(Text.isBlankText_iff _).mp blank c inText] at solid
  cases solid

/-- The end of the path keeps its line as it is. -/
theorem dropCarriageReturn_text : Text.dropCarriageReturn row.text = row.text := by
  apply Text.dropCarriageReturn_eq_self
  have last : row.text.getLast? = row.path.chars.getLast? := by
    obtain ⟨first, others, named⟩ := List.exists_cons_of_ne_nil row.path.nonempty
    simp [text, named, List.getLast?_cons]
  rw [last]
  exact row.path.noReturn

theorem record_text : record row.text = .ok (row.stat, row.path.chars) :=
  record_laid row.additions.noTab row.deletions.noTab row.path.chars

theorem lineEntry_text : lineEntry row.text = .ok (row.key, row.stat) := by
  have named : row.path.chars.isEmpty = false := by simp [row.path.nonempty]
  rw [lineEntry, record_text]
  simp only [bind, Except.bind, named]
  rfl

/-- The field of a row is read as its count, and reading goes on behind it. -/
theorem fieldEntries_text (rest : List (List Char)) :
    fieldEntries (row.text :: rest) = (fieldEntries rest).map ((row.key, row.stat) :: ·) := by
  have kept : row.text.dropWhile (· == '\n') = row.text := by
    apply Text.dropWhile_eq_self
    intro c member
    apply beq_false_of_ne
    rintro rfl
    exact row.clean.1 member
  have recorded : record (row.text.dropWhile (· == '\n')) = .ok (row.stat, row.path.chars) := by
    rw [kept, record_text]
  exact fieldEntries_plain recorded row.path.nonempty rest

/-- Both columns have to stand for a count. -/
theorem stat_eq_text_iff {additions deletions : UInt64} :
    row.stat = .text additions deletions ↔
      Text.IsCountColumn additions row.additions.chars ∧
        Text.IsCountColumn deletions row.deletions.chars :=
  Numstat.stat_eq_text_iff

end Row

/-! Tables of rows. -/

theorem mapM_lineEntry (rows : List Row) :
    (rows.map Row.text).mapM lineEntry = .ok (rows.map fun row => (row.key, row.stat)) := by
  have each : lineEntry ∘ Row.text = fun row => pure (row.key, row.stat) :=
    funext Row.lineEntry_text
  rw [List.mapM_map, each, List.mapM_pure]
  rfl

theorem lines_rows (rows : List Row) : Text.lines (rows.flatMap Row.line) = rows.map Row.text := by
  have clean : ∀ line ∈ rows.map Row.text, '\n' ∉ line := by
    simpa using fun row _ => row.clean.1
  have kept : (rows.map Row.text).map Text.dropCarriageReturn = rows.map Row.text := by
    simp [Row.dropCarriageReturn_text]
  have laid : rows.flatMap Row.line = (rows.map Row.text).flatMap Text.ended := by
    rw [List.flatMap_map]
    rfl
  have nothing : Text.lines [] = [] := rfl
  have cut := Text.lines_flatMap_ended clean []
  rw [List.append_nil, nothing, List.append_nil, kept] at cut
  rw [laid, cut]

theorem splitOn_rows (rows : List Row) :
    Text.splitOn '\x00' (rows.flatMap Row.field) = rows.map Row.text ++ [[]] := by
  induction rows with
  | nil => rfl
  | cons row rest ih =>
    rw [List.flatMap_cons, Row.field, List.append_assoc, List.singleton_append,
      Text.splitOn_append row.clean.2, ih, List.map_cons, List.cons_append]

theorem fieldEntries_rows (rows : List Row) :
    fieldEntries (rows.map Row.text ++ [[]]) = .ok (rows.map fun row => (row.key, row.stat)) := by
  induction rows with
  | nil => rfl
  | cons row rest ih =>
    rw [List.map_cons, List.cons_append, row.fieldEntries_text, ih]
    rfl

/-- Rows are read alike as lines and as fields: each path has the count of its last row, and no
other path has one. A count has lines just where both columns are numerals of counts. -/
theorem forms_agree (rows : List Row) :
    ∃ stats, parseLines (String.ofList (rows.flatMap Row.line)) = .ok stats ∧
      parseFields (String.ofList (rows.flatMap Row.field)) = .ok stats ∧
      (∀ path stat,
        (stats.get? path = some stat ↔ IsLast Row.key Row.stat rows path stat) ∧
        ((path, stat) ∈ stats.entries ↔ IsLast Row.key Row.stat rows path stat)) ∧
      ∀ (row : Row) additions deletions, row.stat = .text additions deletions ↔
        Text.IsCountColumn additions row.additions.chars ∧
          Text.IsCountColumn deletions row.deletions.chars := by
  refine ⟨FileStats.ofList (rows.map fun row => (row.key, row.stat)), ?_, ?_, ?_,
    fun row _ _ => row.stat_eq_text_iff⟩
  · have solid : (rows.map Row.text).filter (fun line => !Text.isBlankText line) =
        rows.map Row.text := by
      simp [Row.isBlankText_text]
    rw [parseLines, String.toList_ofList, lines_rows, solid, mapM_lineEntry]
    rfl
  · rw [parseFields, String.toList_ofList, splitOn_rows, fieldEntries_rows]
    rfl
  · intro path stat
    rw [FileStats.mem_entries_iff, FileStats.get?_ofList, lookup_reverse_map_iff]
    exact ⟨Iff.rfl, Iff.rfl⟩

end GitHistory.Numstat
