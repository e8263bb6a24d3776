import GitHistory.FileStats.Basic
import GitHistory.Json.Typed

/-!
Reading change counts from JSON. A count is an object whose member `kind` tells what the
others mean, wherever it stands; so the others are kept first and judged when all are read.
What is wrong with them has no place of its own in the text.
-/
namespace GitHistory

open Json (Reader Cause Found)
open Json.Reader

namespace FileStat

inductive Kind where
  | text
  | binary

def kind : Reader Kind := do
  match ← string .variant with
  | "text" => pure .text
  | "binary" => pure .binary
  | other => failHere (.unknownVariant other "text" "binary")

/-- The two counts seen so far. -/
structure Counts where
  additions : Option UInt64 := none
  deletions : Option UInt64 := none

def take (name : String) (given : Option UInt64) (value : Found) :
    Except Cause (Option UInt64) := do
  if given.isSome then throw (.duplicateField name)
  some <$> countOf .count value

def Counts.add (given : Counts) (member : String × Found) : Except Cause Counts := do
  match member with
  | ("additions", value) =>
    pure { given with additions := ← take "additions" given.additions value }
  | ("deletions", value) =>
    pure { given with deletions := ← take "deletions" given.deletions value }
  | _ => pure given

/-- The count that an object's other members give. -/
def ofMembers (kind : Kind) (members : List (String × Found)) : Except Cause FileStat := do
  match kind with
  | .binary => pure .binary
  | .text =>
    let given ← members.foldlM Counts.add {}
    match given.additions, given.deletions with
    | none, _ => throw (.missingField "additions")
    | _, none => throw (.missingField "deletions")
    | some additions, some deletions => pure (.text additions deletions)

/-- The count that the rest of a list gives. -/
def ofElements (kind : Kind) (elements : List Found) : Except Cause FileStat := do
  match kind, elements with
  | .binary, [] => pure .binary
  | .binary, elements => throw (.invalidLength elements.length (.exactly 0))
  | .text, [] => throw (.invalidLength 0 (.variant "FileStat::Text" 2))
  | .text, [additions] =>
    let _ ← countOf .count additions
    throw (.invalidLength 1 (.variant "FileStat::Text" 2))
  | .text, additions :: deletions :: more =>
    let additions ← countOf .count additions
    let deletions ← countOf .count deletions
    if more.isEmpty then pure (.text additions deletions)
    else throw (.invalidLength elements.length (.exactly 2))

structure Members where
  kind : Option Kind := none
  others : List (String × Found) := []

def Members.step (depth : Nat) (given : Members) (key : String) : Reader Members := do
  if key = "kind" then
    pure { given with kind := ← field key given.kind FileStat.kind }
  else
    colon
    let value ← anyValue depth
    pure { given with others := (key, value) :: given.others }

/-- Reads a count whose containers may nest as deep as given. What is wrong with the counts
themselves is returned, for it gets a place only from a container around it. -/
def reader (depth : Nat) : Reader (Except Cause FileStat) := do
  match ← valueToken with
  | '{' => do
    advance
    let given ← members stringBody (Members.step (depth - 1)) {}
    let kind ← required "kind" given.kind
    pure (ofMembers kind given.others.reverse)
  | '[' => do
    advance
    if ← nextElement true then
      let kind ← kind
      pure (ofElements kind (← elements (anyValue (depth - 1)) false))
    else failClosing ']' (.missingField "kind")
  | _ => wrongType (.tagged "FileStat")

/-- Reads a whole text as one count. -/
def parse (text : String) : Except Json.Failure FileStat :=
  let whole : Reader FileStat := do
    match ← reader depthLimit with
    | .ok stat => pure stat
    | .error cause => throw ⟨cause, none⟩
  Json.Reader.parse whole text.toList

end FileStat

namespace FileStats

def step (stats : FileStats) (path : String) : Reader FileStats := do
  colon
  match ← FileStat.reader (depthLimit - 1) with
  | .ok stat => pure (stats.insert path stat)
  | .error cause => failClosing '}' cause

/-- An object of counts by path; the last one of a path stands. -/
def reader : Reader FileStats := do
  match ← valueToken with
  | '{' => do
    advance
    members stringBody step empty
  | _ => wrongType .object

/-- Reads a whole text as statistics. -/
def parse (text : String) : Except Json.Failure FileStats :=
  Json.Reader.parse reader text.toList

end FileStats

end GitHistory
