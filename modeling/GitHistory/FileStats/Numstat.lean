import GitHistory.FileStats.Basic
import GitHistory.Text.Split
import GitHistory.Text.Blank
import GitHistory.Text.Numeral

/-!
Git's `--numstat` output, in lines or with records ended by NUL. A record has three columns,
additions, deletions and path; a file whose counts are not both numbers is binary. Either all
records are understood or none is kept.
-/
namespace GitHistory.Numstat

/-- The counts that two columns give. -/
def stat (additions deletions : List Char) : FileStat :=
  match Text.readCount? (Text.trim additions), Text.readCount? (Text.trim deletions) with
  | some additions, some deletions => .text additions deletions
  | _, _ => .binary

private def quotedRecord (record : List Char) : String :=
  Text.quoted (String.ofList record)

/-- Cuts a record at its first two tabs. -/
def record (text : List Char) : Except GitError (FileStat × List Char) :=
  let malformed : Except GitError (FileStat × List Char) :=
    .error (.decode s!"malformed numstat line: {quotedRecord text}")
  match Text.cut? '\t' text with
  | none => malformed
  | some (additions, rest) =>
    match Text.cut? '\t' rest with
    | none => malformed
    | some (deletions, path) => .ok (stat additions deletions, path)

/-- The entry of one line. -/
def lineEntry (line : List Char) : Except GitError (String × FileStat) := do
  let (stat, path) ← record line
  if path.isEmpty then throw (.decode s!"numstat line without path: {quotedRecord line}")
  pure (String.ofList path, stat)

/-- Reads the line form; blank lines do not count. -/
def parseLines (raw : String) : Except GitError FileStats := do
  let lines := (Text.lines raw.toList).filter fun line => !Text.isBlankText line
  pure (FileStats.ofList (← lines.mapM lineEntry))

/-- The entries of NUL-separated fields. A record with no path is a rename: its old and its
new path are the next two fields, and it counts for the new one. -/
def fieldEntries : List (List Char) → Except GitError (List (String × FileStat))
  | [] => .ok []
  | field :: rest =>
    let text := field.dropWhile (· == '\n')
    if text.isEmpty then fieldEntries rest
    else do
      let (stat, path) ← record text
      if path.isEmpty then
        match rest with
        | _ :: path :: rest =>
          if path.isEmpty then
            throw (.decode s!"numstat record without path: {quotedRecord text}")
          let entries ← fieldEntries rest
          pure ((String.ofList path, stat) :: entries)
        | _ => throw (.decode s!"rename record without paths: {quotedRecord text}")
      else
        let entries ← fieldEntries rest
        pure ((String.ofList path, stat) :: entries)

/-- Reads the NUL form. -/
def parseFields (raw : String) : Except GitError FileStats :=
  (fieldEntries (Text.splitOn '\x00' raw.toList)).map FileStats.ofList

end GitHistory.Numstat
