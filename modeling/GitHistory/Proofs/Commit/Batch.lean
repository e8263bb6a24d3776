import GitHistory.Commit.Batch

/-! A batch under any mixture of calls. Whatever is called, the commits that have left the batch are
the first of those it was made of, in their order, and the others are still to come. -/
namespace GitHistory.CommitBatch

/-- The batch without its first commits, which count as consumed. -/
def drop (count : Nat) (batch : CommitBatch) : CommitBatch :=
  ⟨batch.commits.drop count, batch.consumed + (batch.commits.take count).length⟩

theorem drop_cons (count : Nat) (commit : Commit) (rest : List Commit) (consumed : Nat) :
    (CommitBatch.mk (commit :: rest) consumed).drop (count + 1) =
      (CommitBatch.mk rest (consumed + 1)).drop count := by
  simp [drop, Nat.add_assoc, Nat.add_comm 1]

theorem nextCommit_cons (commit : Commit) (rest : List Commit) (consumed : Nat) :
    (CommitBatch.mk (commit :: rest) consumed).nextCommit = (.ok commit, ⟨rest, consumed + 1⟩) :=
  rfl

theorem nextCommit_of_empty {batch : CommitBatch} (empty : batch.commits = []) :
    batch.nextCommit = (.error (.exhausted batch.consumed), batch) := by
  obtain ⟨commits, consumed⟩ := batch
  obtain rfl : commits = [] := empty
  rfl

theorem take_eq (count : Nat) (batch : CommitBatch) :
    batch.take count = (batch.commits.take count, batch.drop count) := by
  induction count generalizing batch with
  | zero => rfl
  | succ count ih =>
    obtain ⟨commits, consumed⟩ := batch
    cases commits with
    | nil => rfl
    | cons commit rest => simp [take, next?, ih, drop_cons]

theorem nth?_eq (count : Nat) (batch : CommitBatch) :
    batch.nth? count = (batch.commits[count]?, batch.drop (count + 1)) := by
  induction count generalizing batch with
  | zero =>
    obtain ⟨commits, consumed⟩ := batch
    cases commits with
    | nil => rfl
    | cons commit rest => rfl
  | succ count ih =>
    obtain ⟨commits, consumed⟩ := batch
    cases commits with
    | nil => rfl
    | cons commit rest =>
      have next := ih ⟨rest, consumed + 1⟩
      rw [nth?, take_eq] at next
      simp only [nth?, take_eq, drop_cons, List.getElem?_cons_succ]
      exact next

/-- Draining a batch hands out all of its commits in their order. -/
theorem drain_eq (batch : CommitBatch) : batch.drain = .ok batch.commits := by
  obtain ⟨commits, consumed⟩ := batch
  induction commits generalizing consumed with
  | nil =>
    rw [drain]
    rfl
  | cons commit rest ih =>
    have more : (CommitBatch.mk (commit :: rest) consumed).hasNext = true := rfl
    rw [drain, if_pos more]
    split
    · rename_i taken
      cases taken
      rw [ih]
      rfl
    · rename_i taken
      cases taken

/-! What a call owes, and what it does. -/

/-- The commits that an answer hands out. -/
def Answer.handed : Answer → List Commit
  | .outcome (.ok commit) => [commit]
  | .commit? commit => commit.toList
  | .commits all => all
  | _ => []

/-- Which of the commits left a call passes over, and which it hands out. -/
def Call.due (left : List Commit) : Call → List Commit × List Commit
  | .nextCommit => ([], left.take 1)
  | .next => ([], left.take 1)
  | .nth count => (left.take count, (left.drop count).take 1)
  | .take count => ([], left.take count)
  | .collect => ([], left)
  | .hasNext | .remaining | .length | .sizeHint => ([], [])

/-- A batch that some commits have left from the front. -/
structure Passes (before : CommitBatch) (passed : List Commit) (after : CommitBatch) : Prop where
  commits : before.commits = passed ++ after.commits
  consumed : after.consumed = before.consumed + passed.length

theorem Passes.refl (batch : CommitBatch) : batch.Passes [] batch := ⟨rfl, rfl⟩

theorem Passes.trans {before middle after : CommitBatch} {first second : List Commit}
    (front : before.Passes first middle) (behind : middle.Passes second after) :
    before.Passes (first ++ second) after := by
  constructor
  · rw [front.commits, behind.commits, List.append_assoc]
  · rw [behind.consumed, front.consumed, List.length_append, Nat.add_assoc]

theorem passes_drop (count : Nat) (batch : CommitBatch) :
    batch.Passes (batch.commits.take count) (batch.drop count) :=
  ⟨(List.take_append_drop count batch.commits).symm, rfl⟩

theorem handed_call (batch : CommitBatch) (call : Call) :
    (batch.call call).1.handed = (call.due batch.commits).2 := by
  cases call with
  | nextCommit =>
    obtain ⟨commits, consumed⟩ := batch
    cases commits <;> rfl
  | next =>
    obtain ⟨commits, consumed⟩ := batch
    cases commits <;> rfl
  | nth count =>
    simp only [CommitBatch.call, nth?_eq, Answer.handed, Call.due]
    rw [List.take_one, List.head?_drop]
  | take count => simp only [CommitBatch.call, take_eq, Answer.handed, Call.due]
  | collect =>
    simp only [CommitBatch.call, collect, take_eq, Answer.handed, Call.due, remaining,
      List.take_length]
  | hasNext | remaining | length | sizeHint => rfl

/-- What a call passes over and hands out leaves the batch from the front, and nothing else does. -/
theorem passes_call (batch : CommitBatch) (call : Call) :
    batch.Passes ((call.due batch.commits).1 ++ (batch.call call).1.handed)
      (batch.call call).2 := by
  rw [handed_call]
  cases call with
  | nextCommit =>
    obtain ⟨commits, consumed⟩ := batch
    cases commits <;> exact ⟨rfl, rfl⟩
  | next =>
    obtain ⟨commits, consumed⟩ := batch
    cases commits <;> exact ⟨rfl, rfl⟩
  | nth count =>
    simp only [CommitBatch.call, nth?_eq, Call.due]
    rw [← List.take_add]
    exact passes_drop (count + 1) batch
  | take count =>
    simp only [CommitBatch.call, take_eq, Call.due]
    exact passes_drop count batch
  | collect =>
    have all := passes_drop batch.remaining batch
    simpa only [CommitBatch.call, collect, take_eq, Call.due, List.nil_append, remaining,
      List.take_length] using all
  | hasNext | remaining | length | sizeHint => exact .refl batch

/-- The commits that calls pass over or hand out, one call after the other, and the batch that they
leave behind. -/
def serve (batch : CommitBatch) : List Call → List Commit × CommitBatch
  | [] => ([], batch)
  | call :: rest =>
    let (answer, after) := batch.call call
    let (later, last) := after.serve rest
    ((call.due batch.commits).1 ++ answer.handed ++ later, last)

theorem passes_serve (batch : CommitBatch) (calls : List Call) :
    batch.Passes (batch.serve calls).1 (batch.serve calls).2 := by
  induction calls generalizing batch with
  | nil => exact .refl batch
  | cons call rest ih => exact (passes_call batch call).trans (ih (batch.call call).2)

/-- What holds of a batch that was made of `commits`, after `passed` have left it. -/
structure Served (commits passed : List Commit) (left : CommitBatch) : Prop where
  inOrder : commits = passed ++ left.commits
  complete : passed.length + left.remaining = commits.length
  counts : left.call .remaining = (.count left.remaining, left) ∧
    left.call .length = (.count left.remaining, left) ∧
    left.call .sizeHint = (.bounds left.remaining left.remaining, left)
  foretold : ∃ more, left.call .hasNext = (.flag more, left) ∧
    (more = true ↔ ∃ commit after, left.call .nextCommit = (.outcome (.ok commit), after))
  handsOut : ∀ call, (left.call call).1.handed = (call.due left.commits).2
  exhausted : passed.length = commits.length →
    left.call .nextCommit = (.outcome (.error (.exhausted commits.length)), left)

theorem hasNext_iff (batch : CommitBatch) :
    batch.hasNext = true ↔
      ∃ commit after, batch.call .nextCommit = (.outcome (.ok commit), after) := by
  obtain ⟨commits, consumed⟩ := batch
  cases commits with
  | nil => simp [hasNext, call, nextCommit_of_empty]
  | cons commit rest => simp [hasNext, call, nextCommit_cons]

theorem Passes.served {commits passed : List Commit} {left : CommitBatch}
    (passes : (ofCommits commits).Passes passed left) : Served commits passed left := by
  have complete : passed.length + left.remaining = commits.length := by
    rw [remaining, ← List.length_append, ← passes.commits, ofCommits]
  refine ⟨passes.commits, complete, ⟨rfl, rfl, rfl⟩, ⟨_, rfl, hasNext_iff left⟩,
    handed_call left, ?_⟩
  intro all
  have empty : left.commits = [] := by
    apply List.eq_nil_of_length_eq_zero
    rw [remaining] at complete
    omega
  have consumed : left.consumed = commits.length := by
    rw [passes.consumed, ofCommits, all, Nat.zero_add]
  rw [call, nextCommit_of_empty empty, consumed]

/-- After any calls, the commits handed out or passed over so far are the front of the batch. The
counts, the look ahead and the failure at the end tell just how many are left, and every call
hands out what is due of these. -/
theorem serve_front (commits : List Commit) (calls : List Call) :
    Served commits ((ofCommits commits).serve calls).1 ((ofCommits commits).serve calls).2 :=
  (passes_serve (ofCommits commits) calls).served

end GitHistory.CommitBatch
