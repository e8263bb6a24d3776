import GitHistory.Commit.Basic
import GitHistory.Error

/-!
A batch of commits handed out front to back, once each, by whatever mixture of calls.
-/
namespace GitHistory

structure CommitBatch where
  commits : List Commit
  consumed : Nat
  deriving Repr

namespace CommitBatch

def ofCommits (commits : List Commit) : CommitBatch := ⟨commits, 0⟩

def hasNext (batch : CommitBatch) : Bool := !batch.commits.isEmpty

def remaining (batch : CommitBatch) : Nat := batch.commits.length

/-- The next commit, and the batch behind it. -/
def next? (batch : CommitBatch) : Option (Commit × CommitBatch) :=
  match batch.commits with
  | [] => none
  | commit :: rest => some (commit, ⟨rest, batch.consumed + 1⟩)

/-- The next commit, or how many there were. -/
def nextCommit (batch : CommitBatch) : Except GitError Commit × CommitBatch :=
  match batch.next? with
  | some (commit, batch) => (.ok commit, batch)
  | none => (.error (.exhausted batch.consumed), batch)

theorem remaining_of_nextCommit {batch after : CommitBatch} {commit : Commit}
    (taken : batch.nextCommit = (.ok commit, after)) : after.remaining < batch.remaining := by
  obtain ⟨commits, consumed⟩ := batch
  cases commits with
  | nil => cases taken
  | cons first rest =>
    cases taken
    exact Nat.lt_succ_self _

/-- Hands out commits as long as there are any. -/
def drain (batch : CommitBatch) : Except GitError (List Commit) :=
  if batch.hasNext then
    match _ : batch.nextCommit with
    | (.ok commit, after) => (commit :: ·) <$> after.drain
    | (.error error, _) => .error error
  else .ok []
  termination_by batch.remaining
  decreasing_by exact remaining_of_nextCommit ‹batch.nextCommit = _›

/-- Hands out up to `count` commits. -/
def take : Nat → CommitBatch → List Commit × CommitBatch
  | 0, batch => ([], batch)
  | count + 1, batch =>
    match batch.next? with
    | none => ([], batch)
    | some (commit, batch) =>
      let (commits, batch) := take count batch
      (commit :: commits, batch)

/-- Hands out everything left. -/
def collect (batch : CommitBatch) : List Commit × CommitBatch :=
  take batch.remaining batch

/-- Passes over `count` commits and hands out the next. -/
def nth? (count : Nat) (batch : CommitBatch) : Option Commit × CommitBatch :=
  let (_, batch) := take count batch
  match batch.next? with
  | some (commit, batch) => (some commit, batch)
  | none => (none, batch)

/-- The calls a batch answers. -/
inductive Call where
  | hasNext
  | nextCommit
  | next
  | nth (count : Nat)
  | take (count : Nat)
  | collect
  | remaining
  | length
  | sizeHint
  deriving Repr

inductive Answer where
  | flag (b : Bool)
  | outcome (result : Except GitError Commit)
  | commit? (commit : Option Commit)
  | commits (commits : List Commit)
  | count (n : Nat)
  | bounds (low high : Nat)

def call (batch : CommitBatch) : Call → Answer × CommitBatch
  | .hasNext => (.flag batch.hasNext, batch)
  | .nextCommit =>
    let (result, batch) := batch.nextCommit
    (.outcome result, batch)
  | .next =>
    let (commit, batch) := batch.nth? 0
    (.commit? commit, batch)
  | .nth count =>
    let (commit, batch) := batch.nth? count
    (.commit? commit, batch)
  | .take count =>
    let (commits, batch) := batch.take count
    (.commits commits, batch)
  | .collect =>
    let (commits, batch) := batch.collect
    (.commits commits, batch)
  | .remaining => (.count batch.remaining, batch)
  | .length => (.count batch.remaining, batch)
  | .sizeHint => (.bounds batch.remaining batch.remaining, batch)

end CommitBatch

end GitHistory
