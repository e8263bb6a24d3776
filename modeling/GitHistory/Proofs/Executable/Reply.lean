import GitHistory.Proofs.Commit.Stream
import GitHistory.Proofs.Executable.Guard

/-! Reading takes one command, and its reply decides: a command that failed is told as what its
complaint is classified by, whatever it printed, and the output of one that succeeded is decoded,
whatever it complained about. -/
namespace GitHistory

theorem classifyFailure_cases (command : String) (output : CommandOutput) :
    (∃ stderr, classifyFailure command output = .authentication command stderr) ∨
      (∃ reference, classifyFailure command output = .notFound reference) ∨
      ∃ stderr, classifyFailure command output = .process command output.code stderr := by
  unfold classifyFailure
  dsimp only
  split
  · exact .inl ⟨_, rfl⟩
  · split
    · exact .inr (.inl ⟨_, rfl⟩)
    · exact .inr (.inr ⟨_, rfl⟩)

namespace Executable

variable {α σ : Type}

theorem printed_failed {invocation : Invocation} {reply : CommandOutput}
    (failed : reply.success = false) :
    printed invocation (.ok reply) = .error (classifyFailure invocation.text reply) := by
  simp only [printed, bind, Except.bind, failed]
  rfl

theorem printed_succeeded {invocation : Invocation} {reply : CommandOutput}
    (succeeded : reply.success = true) : printed invocation (.ok reply) = .ok reply.stdout := by
  simp only [printed, bind, Except.bind, succeeded]
  rfl

/-- A plan that runs one command once and ends with what the reply to it stands for: an error as
`tell` puts it, or what `decode` makes of the output. -/
structure DecidedByReply (host : Plan.Host σ) (plan : Plan α) (invocation : Invocation)
    (tell : GitError → GitError) (decode : String → Except GitError α) : Prop where
  once : ∀ state, plan.calls host state = [invocation]
  stopped : ∀ state error after, host.run invocation state = (.error error, after) →
    plan.execute host state = (.error (tell error), after)
  failed : ∀ state reply after, host.run invocation state = (.ok reply, after) →
    reply.success = false →
      plan.execute host state = (.error (tell (classifyFailure invocation.text reply)), after)
  succeeded : ∀ state reply after, host.run invocation state = (.ok reply, after) →
    reply.success = true → plan.execute host state = (decode reply.stdout, after)

theorem execute_query (host : Plan.Host σ) (program : String) (words : List String)
    (conclude : Except GitError String → Except GitError α) (state : σ) :
    (query program (.ok words) conclude).execute host state =
      (conclude (printed ⟨program, words⟩ (host.run ⟨program, words⟩ state).1),
        (host.run ⟨program, words⟩ state).2) := rfl

theorem decidedByReply_query (host : Plan.Host σ) (program : String) {words : List String}
    {arguments : Except GitError (List String)} (passed : arguments = .ok words)
    {conclude : Except GitError String → Except GitError α} {tell : GitError → GitError}
    {decode : String → Except GitError α}
    (tells : ∀ error, conclude (.error error) = .error (tell error))
    (decodes : ∀ output, conclude (.ok output) = decode output) :
    DecidedByReply host (query program arguments conclude) ⟨program, words⟩ tell decode := by
  subst passed
  constructor
  · intro state
    rfl
  · intro state error after replied
    rw [execute_query, replied]
    exact congrArg (·, after) (tells error)
  · intro state reply after replied failed
    rw [execute_query, replied, printed_failed failed, tells]
  · intro state reply after replied succeeded
    rw [execute_query, replied, printed_succeeded succeeded, decodes]

/-- The first of the commits that an output describes; if it describes none, the reference that
was asked for is not found. -/
def firstCommit (root reference output : String) : Except GitError Commit := do
  match (← decodeLog output root).head? with
  | some commit => pure commit
  | none => throw (.notFound reference)

section
variable (host : Plan.Host σ) (program root : String)

theorem commitsForRange_decided {request : Request}
    (passes : refusal? (usedRevisions request.branchRef request.oldest request.newest) = none) :
    ∃ words, logArguments root request = .ok words ∧
      DecidedByReply host (commitsForRange program root request) ⟨program, words⟩ id
        fun output => decodeLog output root := by
  have passed := logArguments_eq root request
  rw [passes] at passed
  exact ⟨_, passed, decidedByReply_query host program passed (fun _ => rfl) fun _ => rfl⟩

theorem decidedByReply_lookup {reference : String} {words : List String}
    (passed : showArguments root reference = .ok words) :
    DecidedByReply host (commitByReference program root reference) ⟨program, words⟩
      (renamed reference) (firstCommit root reference) := by
  refine decidedByReply_query host program passed (fun _ => rfl) fun output => ?_
  change decodeLog output root >>= _ = firstCommit root reference output
  rw [firstCommit]
  cases decodeLog output root with
  | error failure => rfl
  | ok commits => cases commits <;> rfl

theorem commitByReference_decided {reference : String} (passes : refusal? [reference] = none) :
    ∃ words, showArguments root reference = .ok words ∧
      DecidedByReply host (commitByReference program root reference) ⟨program, words⟩
        (renamed reference) (firstCommit root reference) := by
  have passed := showArguments_eq root reference
  rw [passes] at passed
  exact ⟨_, passed, decidedByReply_lookup host program root passed⟩

theorem diffStats_decided {revision : String} {other : Option String}
    (passes : refusal? (comparedRevisions revision other) = none) :
    ∃ words, diffArguments root revision other = .ok words ∧
      DecidedByReply host (diffStats program root revision other) ⟨program, words⟩ id
        Numstat.parseFields := by
  have passed := diffArguments_eq root revision other
  rw [passes] at passed
  exact ⟨_, passed, decidedByReply_query host program passed (fun _ => rfl) fun _ => rfl⟩

end

theorem firstCommit_failure {root reference output : String} {error : GitError}
    (failed : firstCommit root reference output = .error error) :
    decodeLog output root = .ok [] ∧ error = .notFound reference ∨
      ∃ reason, error = .decode reason := by
  rcases decodeLog_ok_or_decode output root with ⟨commits, decoded⟩ | ⟨reason, refused⟩
  · rw [firstCommit, decoded] at failed
    cases commits with
    | nil => exact .inl ⟨decoded, (Except.error.inj failed).symm⟩
    | cons commit rest => cases failed
  · rw [firstCommit, refused] at failed
    exact .inr ⟨reason, (Except.error.inj failed).symm⟩

theorem firstCommit_of_nothing {root reference output : String}
    (nothing : decodeLog output root = .ok []) :
    firstCommit root reference output = .error (.notFound reference) := by
  rw [firstCommit, nothing]
  rfl

/-- A reply for which nothing was found: git does not know the revision, or printed no commit. -/
def FoundNothing (root : String) (invocation : Invocation) (reply : CommandOutput) : Prop :=
  reply.success = false ∧ (∃ quoted, classifyFailure invocation.text reply = .notFound quoted) ∨
    reply.success = true ∧ decodeLog reply.stdout root = .ok []

section
variable {host : Plan.Host σ} {plan : Plan Commit} {invocation : Invocation}
variable {root reference : String} {state after : σ} {reply : CommandOutput}

theorem DecidedByReply.of_foundNothing
    (decided : DecidedByReply host plan invocation (renamed reference)
      (firstCommit root reference))
    (replied : host.run invocation state = (.ok reply, after))
    (nothing : FoundNothing root invocation reply) :
    (plan.execute host state).1 = .error (.notFound reference) := by
  rcases nothing with ⟨failed, quoted, same⟩ | ⟨succeeded, empty⟩
  · rw [decided.failed state reply after replied failed, same]
    rfl
  · rw [decided.succeeded state reply after replied succeeded, firstCommit_of_nothing empty]

/-- A failure of the kind for things not found names the reference that was asked for. -/
theorem DecidedByReply.of_kind
    (decided : DecidedByReply host plan invocation (renamed reference)
      (firstCommit root reference))
    (replied : host.run invocation state = (.ok reply, after)) {error : GitError}
    (outcome : (plan.execute host state).1 = .error error) (kind : error.kind = .notFound) :
    FoundNothing root invocation reply ∧ error = .notFound reference := by
  cases success : reply.success with
  | false =>
    rw [decided.failed state reply after replied success] at outcome
    obtain rfl := Except.error.inj outcome
    rcases classifyFailure_cases invocation.text reply with ⟨stderr, same⟩ | ⟨quoted, same⟩ |
      ⟨stderr, same⟩
    · simp [same, renamed, GitError.kind] at kind
    · exact ⟨.inl ⟨success, quoted, same⟩, by rw [same]; rfl⟩
    · simp [same, renamed, GitError.kind] at kind
  | true =>
    rw [decided.succeeded state reply after replied success] at outcome
    rcases firstCommit_failure outcome with ⟨nothing, same⟩ | ⟨reason, rfl⟩
    · exact ⟨.inr ⟨success, nothing⟩, same⟩
    · cases kind

end

/-- Each way to read runs one command and is decided by the reply to it. A lookup fails because
nothing was found just when git does not know the revision or prints no commit, and it names the
reference as it was given. -/
theorem reads_decided_by_reply (host : Plan.Host σ) (program root : String) :
    (∀ command output stdout, classifyFailure command { output with stdout := stdout } =
      classifyFailure command output) ∧
    (∀ request : Request,
      refusal? (usedRevisions request.branchRef request.oldest request.newest) = none →
      ∃ words, logArguments root request = .ok words ∧
        DecidedByReply host (commitsForRange program root request) ⟨program, words⟩ id
          fun output => decodeLog output root) ∧
    (∀ reference, refusal? [reference] = none →
      ∃ words, showArguments root reference = .ok words ∧
        DecidedByReply host (commitByReference program root reference) ⟨program, words⟩
          (renamed reference) (firstCommit root reference) ∧
        ∀ state reply after, host.run ⟨program, words⟩ state = (.ok reply, after) →
          (((commitByReference program root reference).execute host state).1 =
              .error (.notFound reference) ↔ FoundNothing root ⟨program, words⟩ reply) ∧
          ∀ error, ((commitByReference program root reference).execute host state).1 =
            .error error → error.kind = .notFound → error = .notFound reference) ∧
    (∀ revision other, refusal? (comparedRevisions revision other) = none →
      ∃ words, diffArguments root revision other = .ok words ∧
        DecidedByReply host (diffStats program root revision other) ⟨program, words⟩ id
          Numstat.parseFields) := by
  refine ⟨fun _ _ _ => rfl, fun request => commitsForRange_decided host program root,
    fun reference passes => ?_, fun revision other => diffStats_decided host program root⟩
  obtain ⟨words, passed, decided⟩ := commitByReference_decided host program root passes
  refine ⟨words, passed, decided, fun state reply after replied => ⟨?_, ?_⟩⟩
  · constructor
    · intro outcome
      exact (decided.of_kind replied outcome rfl).1
    · exact decided.of_foundNothing replied
  · intro error outcome kind
    exact (decided.of_kind replied outcome kind).2

/-- A host that gives the same reply to every command. -/
def Plan.Host.answering (reply : CommandOutput) : Plan.Host Unit where
  run := fun _ state => (.ok reply, state)
  makeDirectories := fun _ state => (.ok (), state)

theorem reads_decided_by_reply_unknown_revision :
    refusal? (usedRevisions "main" (some "v1") none) = none ∧
    (commitsForRange "git" "/repo" ⟨"main", "main", 5, some "v1", none⟩).execute
      (.answering (.ok "")) () = (.ok [], ()) ∧
    refusal? ["v9"] = none ∧
    (commitByReference "git" "/repo" "v9").execute
      (.answering (.failed 128 "fatal: bad revision 'v9^0'\n")) () =
        (.error (.notFound "v9"), ()) ∧
    refusal? (comparedRevisions "v9" none) = none ∧
    (diffStats "git" "/repo" "v9" none).execute
      (.answering (.failed 128 "fatal: bad revision 'v9^'\n")) () =
        (.error (.notFound "v9^"), ()) := by
  obtain ⟨-, log, -, -⟩ := reads_decided_by_reply (.answering (.ok "")) "git" "/repo"
  obtain ⟨-, -, lookup, -⟩ := reads_decided_by_reply
    (.answering (.failed 128 "fatal: bad revision 'v9^0'\n")) "git" "/repo"
  obtain ⟨-, -, -, diff⟩ := reads_decided_by_reply
    (.answering (.failed 128 "fatal: bad revision 'v9^'\n")) "git" "/repo"
  have range : refusal? (usedRevisions "main" (some "v1") none) = none := by decide
  have named : refusal? ["v9"] = none := by decide
  have compared : refusal? (comparedRevisions "v9" none) = none := by decide
  obtain ⟨_, -, logged⟩ := log ⟨"main", "main", 5, some "v1", none⟩ range
  obtain ⟨_, -, shown, -⟩ := lookup "v9" named
  obtain ⟨_, -, counted⟩ := diff "v9" none compared
  have nothing : decodeLog "" "/repo" = .ok [] := by rfl
  have quoted : ∀ command, classifyFailure command
      (.failed 128 "fatal: bad revision 'v9^'\n") = .notFound "v9^" := fun _ => by rfl
  have peeled : ∀ command, classifyFailure command
      (.failed 128 "fatal: bad revision 'v9^0'\n") = .notFound "v9^0" := fun _ => by rfl
  refine ⟨range, ?_, named, ?_, compared, ?_⟩
  · exact (logged.succeeded () _ () rfl rfl).trans (congrArg (·, ()) nothing)
  · rw [shown.failed () _ () rfl rfl, peeled]
    rfl
  · rw [counted.failed () _ () rfl rfl, quoted]
    rfl

end Executable

end GitHistory
