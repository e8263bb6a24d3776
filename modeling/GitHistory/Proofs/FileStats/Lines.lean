import Mathlib.Data.Set.List
import GitHistory.Proofs.FileStats.Entries
import GitHistory.Proofs.FileStats.Records
import GitHistory.Proofs.Text.Lines

/-! What the line form gives for any text at all. Either every line that is not blank is a record,
and then the last record of each path stands, or nothing is kept. -/
namespace GitHistory.Numstat

/-- A line with two columns, a tab behind each of them, and a path. -/
structure LineRecord where
  additions : List Char
  deletions : List Char
  path : List Char
  firstTab : '\t' ∉ additions
  secondTab : '\t' ∉ deletions
  named : path ≠ []

namespace LineRecord

def text (row : LineRecord) : List Char :=
  row.additions ++ '\t' :: (row.deletions ++ '\t' :: row.path)

/-- The path that a record counts for. -/
def key (row : LineRecord) : String := String.ofList row.path

def stat (row : LineRecord) : FileStat := Numstat.stat row.additions row.deletions

theorem lineEntry_text (row : LineRecord) : lineEntry row.text = .ok (row.key, row.stat) := by
  rw [lineEntry, text, record_laid row.firstTab row.secondTab]
  simp only [bind, Except.bind, List.isEmpty_eq_false_iff.mpr row.named]
  rfl

end LineRecord

/-- Whether a line is a record. -/
def IsRecord (line : List Char) : Prop := ∃ row : LineRecord, row.text = line

theorem lineEntry_of_not_isRecord {line : List Char} (other : ¬ IsRecord line) :
    ∃ reason, lineEntry line = .error (.decode reason) := by
  rcases record_cases line with ⟨additions, deletions, path, rfl, firstTab, secondTab⟩ |
    ⟨reason, malformed⟩
  · by_cases named : path = []
    · rw [lineEntry, record_laid firstTab secondTab, named]
      exact ⟨_, rfl⟩
    · exact (other ⟨⟨additions, deletions, path, firstTab, secondTab, named⟩, rfl⟩).elim
  · rw [lineEntry, malformed]
    exact ⟨_, rfl⟩

theorem mapM_lineEntry_records (rows : List LineRecord) :
    (rows.map LineRecord.text).mapM lineEntry = .ok (rows.map fun row => (row.key, row.stat)) := by
  have each : lineEntry ∘ LineRecord.text = fun row => pure (row.key, row.stat) :=
    funext LineRecord.lineEntry_text
  rw [List.mapM_map, each, List.mapM_pure]
  rfl

/-- One line that is no record is enough for nothing to be kept. -/
theorem mapM_lineEntry_refused {lines : List (List Char)}
    (refused : ∃ line ∈ lines, ¬ IsRecord line) :
    ∃ reason, lines.mapM lineEntry = .error (.decode reason) := by
  induction lines with
  | nil =>
    obtain ⟨line, member, -⟩ := refused
    cases member
  | cons first rest ih =>
    rw [List.mapM_cons]
    by_cases here : IsRecord first
    · obtain ⟨row, rfl⟩ := here
      obtain ⟨line, member, other⟩ := refused
      rcases List.mem_cons.mp member with rfl | inside
      · exact (other ⟨row, rfl⟩).elim
      · obtain ⟨reason, failed⟩ := ih ⟨line, inside, other⟩
        rw [row.lineEntry_text, failed]
        exact ⟨reason, rfl⟩
    · obtain ⟨reason, failed⟩ := lineEntry_of_not_isRecord here
      rw [failed]
      exact ⟨reason, rfl⟩

/-- The lines that are not blank. -/
def solidLines (lines : List (List Char)) : List (List Char) :=
  lines.filter fun line => !Text.isBlankText line

theorem parseLines_records {raw : String} {rows : List LineRecord}
    (solid : rows.map LineRecord.text = solidLines (Text.lines raw.toList)) :
    parseLines raw = .ok (.ofList (rows.map fun row => (row.key, row.stat))) := by
  rw [solidLines] at solid
  rw [parseLines, ← solid, mapM_lineEntry_records]
  rfl

theorem parseLines_refused {raw : String}
    (refused : ∃ line ∈ solidLines (Text.lines raw.toList), ¬ IsRecord line) :
    ∃ reason, parseLines raw = .error (.decode reason) := by
  obtain ⟨reason, failed⟩ := mapM_lineEntry_refused refused
  rw [solidLines] at failed
  rw [parseLines, failed]
  exact ⟨reason, rfl⟩

/-- Statistics that some records come to: the paths that they are about, each with what the columns
of the last record of it count. -/
structure Tells (rows : List LineRecord) (stats : FileStats) : Prop where
  paths : ∀ path, (∃ stat, (path, stat) ∈ stats.entries) ↔ ∃ row ∈ rows, row.key = path
  last : ∀ path stat, (path, stat) ∈ stats.entries ↔
    ∃ before row after, rows = before ++ row :: after ∧ row.key = path ∧
      ColumnsCount row.additions row.deletions stat ∧ ∀ later ∈ after, later.key ≠ path
  found : ∀ path stat, stats.get? path = some stat ↔ (path, stat) ∈ stats.entries

theorem tells_ofList (rows : List LineRecord) :
    Tells rows (.ofList (rows.map fun row => (row.key, row.stat))) := by
  refine ⟨fun path => ?_, fun path stat => ?_, fun path stat =>
    (FileStats.mem_entries_iff _).symm⟩
  · simp only [FileStats.mem_entries_iff, FileStats.get?_ofList, ← Option.isSome_iff_exists]
    rw [Option.isSome_iff_ne_none, Ne, lookup_reverse_eq_none_iff, Bool.not_eq_false]
    simp [hasPath]
  · rw [FileStats.mem_entries_iff, FileStats.get?_ofList, lookup_reverse_map_iff]
    simp only [IsLast, LineRecord.stat, stat_eq_iff]

/-- What the line form of a text gives is told by its lines that are not blank. It is understood
just when each of these is a record, and then they tell the statistics; if one of them is no
record, nothing is kept. -/
theorem parseLines_exact (raw : String) :
    ∃ lines, (∀ all, Text.HasLines raw.toList all ↔ all = lines) ∧
      ((∃ stats, parseLines raw = .ok stats) ↔ ∀ line ∈ solidLines lines, IsRecord line) ∧
      (∀ stats, parseLines raw = .ok stats → ∃ rows : List LineRecord,
        rows.map LineRecord.text = solidLines lines ∧ Tells rows stats) ∧
      ((∃ line ∈ solidLines lines, ¬ IsRecord line) →
        ∃ reason, parseLines raw = .error (.decode reason)) := by
  have accepted : ∀ stats, parseLines raw = .ok stats →
      ∀ line ∈ solidLines (Text.lines raw.toList), IsRecord line := by
    intro stats understood
    refine Classical.byContradiction fun refused => ?_
    obtain ⟨reason, failed⟩ := parseLines_refused (by simpa using refused)
    cases understood.symm.trans failed
  have rowsOf : (∀ line ∈ solidLines (Text.lines raw.toList), IsRecord line) →
      ∃ rows : List LineRecord,
        rows.map LineRecord.text = solidLines (Text.lines raw.toList) :=
    fun records => (Set.range_list_map LineRecord.text).ge records
  refine ⟨Text.lines raw.toList, fun _ => Text.hasLines_iff, ⟨?_, fun records => ?_⟩,
    fun stats understood => ?_, parseLines_refused⟩
  · rintro ⟨stats, understood⟩
    exact accepted stats understood
  · obtain ⟨rows, solid⟩ := rowsOf records
    exact ⟨_, parseLines_records solid⟩
  · obtain ⟨rows, solid⟩ := rowsOf (accepted stats understood)
    cases understood.symm.trans (parseLines_records solid)
    exact ⟨rows, solid, tells_ofList rows⟩

/-- A blank line between two records, one of them with a count that is too large and a tab in its
path; and behind a record a line without a path. -/
theorem parseLines_exact_samples :
    (∃ rows, parseLines "+007\t 1 \ta\r\n\u2003\r\n18446744073709551616\t0\tb\tc\r" =
        .ok (.ofList [("a", .text 7 1), ("b\tc\r", .binary)]) ∧
      Tells rows (.ofList [("a", .text 7 1), ("b\tc\r", .binary)])) ∧
    ∃ reason, parseLines "0\t0\ta\n3\t1\t\r\n" = .error (.decode reason) := by
  constructor
  · have understood :
        parseLines "+007\t 1 \ta\r\n\u2003\r\n18446744073709551616\t0\tb\tc\r" =
          .ok (.ofList [("a", .text 7 1), ("b\tc\r", .binary)]) := by decide +kernel
    obtain ⟨_, -, -, told, -⟩ :=
      parseLines_exact "+007\t 1 \ta\r\n\u2003\r\n18446744073709551616\t0\tb\tc\r"
    obtain ⟨rows, -, tells⟩ := told _ understood
    exact ⟨rows, understood, tells⟩
  · obtain ⟨lines, has, -, -, refused⟩ := parseLines_exact "0\t0\ta\n3\t1\t\r\n"
    have cut : ["0\t0\ta".toList, "3\t1\t".toList] = lines :=
      (has _).mp (Text.hasLines_iff.mpr (by decide))
    refine refused ⟨"3\t1\t".toList, by rw [← cut]; decide, ?_⟩
    rintro ⟨row, same⟩
    have entry := row.lineEntry_text
    have failed : (lineEntry "3\t1\t".toList).isOk = false := by decide
    rw [← same, entry] at failed
    cases failed

end GitHistory.Numstat
