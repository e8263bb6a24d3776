/-!
Cutting a text into fields and lines, and putting fields together again.
-/
namespace GitHistory.Text

/-- The fields between the occurrences of `separator`; never empty. -/
def splitOn (separator : Char) : List Char → List (List Char)
  | [] => [[]]
  | c :: rest =>
    if c = separator then [] :: splitOn separator rest
    else
      match splitOn separator rest with
      | [] => [[c]]
      | field :: fields => (c :: field) :: fields

/-- Fields written one after the other with the separator between them. -/
def join (separator : Char) : List (List Char) → List Char
  | [] => []
  | [field] => field
  | field :: fields => field ++ separator :: join separator fields

/-- Cuts at the first occurrence of `separator`, which belongs to neither side. -/
def cut? (separator : Char) : List Char → Option (List Char × List Char)
  | [] => none
  | c :: rest =>
    if c = separator then some ([], rest)
    else (cut? separator rest).map fun (before, after) => (c :: before, after)

/-- Drops one carriage return from the end. -/
def dropCarriageReturn (line : List Char) : List Char :=
  match line.reverse with
  | '\r' :: rest => rest.reverse
  | _ => line

/-- Lines end at a line feed, which takes one carriage return before it along. What follows
the last line feed is a line only if it is not empty, and keeps its carriage returns. -/
def lines (text : List Char) : List (List Char) :=
  match (splitOn '\n' text).reverse with
  | [] => []
  | last :: ended =>
    let ended := ended.reverse.map dropCarriageReturn
    if last.isEmpty then ended else ended ++ [last]

/-- Whether `pattern` occurs somewhere in the text. -/
def contains (pattern : List Char) : List Char → Bool
  | [] => pattern.isEmpty
  | c :: rest => pattern.isPrefixOf (c :: rest) || contains pattern rest

theorem splitOn_ne_nil (separator : Char) (text : List Char) : splitOn separator text ≠ [] := by
  cases text with
  | nil => simp [splitOn]
  | cons c rest =>
    simp only [splitOn]
    split
    · simp
    · split <;> simp

end GitHistory.Text
