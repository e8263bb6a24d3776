import GitHistory.FileStats.Basic
import GitHistory.Store.Lines
import GitHistory.Store.Revision

/-!
Change counts between two trees. Every path whose content or mode differs gives a delta, and
one that turns from a file into a link or back gives two.
-/
namespace GitHistory

/-- A change of one path. -/
structure Delta where
  path : List UInt8
  old : Option TreeFile
  new : Option TreeFile
  deriving Repr, DecidableEq

namespace Delta

/-- Bytes that are looked at to tell whether a content is binary. -/
def probeSize : Nat := 8000

def isBinaryContent (content : List UInt8) : Bool := (content.take probeSize).contains 0

/-- Whether either side is binary. -/
def isBinary (delta : Delta) : Bool :=
  (delta.old.toList ++ delta.new.toList).any fun file => isBinaryContent file.content

private def linesOf : Option TreeFile → List (List UInt8)
  | some file => contentLines file.content
  | none => []

def oldLines (delta : Delta) : List (List UInt8) := linesOf delta.old

def newLines (delta : Delta) : List (List UInt8) := linesOf delta.new

/-- How many lines go and how many come. -/
def changes (delta : Delta) : Nat × Nat := Lines.changes delta.oldLines delta.newLines

def additions (delta : Delta) : Nat := delta.changes.2

def deletions (delta : Delta) : Nat := delta.changes.1

def stat (delta : Delta) : FileStat :=
  if delta.isBinary then .binary
  else .text (UInt64.ofNat delta.additions) (UInt64.ofNat delta.deletions)

end Delta

/-- The file of a path. -/
def fileAt? (files : List TreeFile) (path : List UInt8) : Option TreeFile :=
  files.find? fun file => file.path == path

/-- Whether a file is a link. -/
def TreeFile.isLink (file : TreeFile) : Bool := file.mode == .link

/-- The changes of one path. -/
def deltasAt (path : List UInt8) (old new : Option TreeFile) : List Delta :=
  match old, new with
  | some before, some after =>
    if before.isLink != after.isLink then [⟨path, old, none⟩, ⟨path, none, new⟩]
    else if before.content = after.content ∧ before.mode = after.mode then []
    else [⟨path, old, new⟩]
  | none, none => []
  | _, _ => [⟨path, old, new⟩]

/-- The paths of two trees in ascending order. -/
def pathsOf (old new : List TreeFile) : List (List UInt8) :=
  (((old ++ new).map (·.path)).mergeSort fun a b => decide (a ≤ b)).eraseDups

/-- The changes from one tree to another, ascending by path. -/
def deltas (old new : List TreeFile) : List Delta :=
  (pathsOf old new).flatMap fun path => deltasAt path (fileAt? old path) (fileAt? new path)

/-- The counts of changes. Bytes of a path that are no text are replaced; a later change of the
same path stands. -/
def numstat (changes : List Delta) : FileStats :=
  FileStats.ofList (changes.map fun delta => (Text.decodeUtf8Lossy delta.path, delta.stat))

namespace Store

/-- The files of a commit's tree. -/
def files (store : Store) (id : ObjectId) : List TreeFile :=
  match store.commit? id with
  | some commit => commit.files
  | none => []

/-- The two commits that a comparison is about: the two that are named, or the first parent of
the only one and that one. -/
def compared (store : Store) (revision : String) (other : Option String) :
    Except GitError (ObjectId × ObjectId) := do
  let id ← store.resolve revision
  match nonEmpty? other with
  | some other => pure (id, ← store.resolve other)
  | none =>
    match store.parent id 0 with
    | .ok parent => pure (parent, id)
    | .error _ => throw (.notFound (revision ++ "^"))

/-- The change counts between two revisions, or of one against its first parent. -/
def diffStats (store : Store) (revision : String) (other : Option String) :
    Except GitError FileStats := do
  let (old, new) ← store.compared revision other
  pure (numstat (deltas (store.files old) (store.files new)))

end Store

end GitHistory
