import GitHistory.FileStats.Json
import GitHistory.FileStats.Numstat

/-!
Statistics that are put together step by step: by single counts and by whole batches, each of them
over what was there, or anew from nothing. A batch that is not understood changes nothing.
-/
namespace GitHistory.FileStats

/-- Forms that a batch of counts is written in. -/
inductive Form where
  | lines
  | fields
  | json
  deriving Repr, DecidableEq

/-- Reads a batch, if it is understood. -/
def Form.read? (text : String) : Form → Option FileStats
  | .lines => (Numstat.parseLines text).toOption
  | .fields => (Numstat.parseFields text).toOption
  | .json => (FileStats.parse text).toOption

inductive Step where
  | insert (path : String) (stat : FileStat)
  | batch (form : Form) (text : String)
  | clear
  deriving Repr, DecidableEq

def apply (stats : FileStats) : Step → FileStats
  | .insert path stat => stats.insert path stat
  | .batch form text =>
    match form.read? text with
    | some batch => stats.insertAll batch.entries
    | none => stats
  | .clear => empty

/-- The statistics after some steps from nothing. -/
def after (steps : List Step) : FileStats := steps.foldl apply empty

end GitHistory.FileStats
