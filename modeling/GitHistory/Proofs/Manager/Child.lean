import GitHistory.Manager
import GitHistory.Proofs.Executable.Reply

/-! What is told of a process that was waited for. The status of one that failed counts only if
all that it printed is UTF-8: otherwise reading fails for what was printed, and what the process
complained about is lost. -/
namespace GitHistory

variable {α σ : Type}

/-- The failure that a process is classified by: its complaint and its exit code, not its output. -/
def ChildExit.failure (command : String) (child : ChildExit) : GitError :=
  classifyFailure command
    ⟨"", Text.decodeUtf8Lossy child.stderr, child.status.code?, child.status.isSuccess⟩

theorem ChildExit.classifyFailure_eq (command stdout : String) (child : ChildExit) :
    classifyFailure command ⟨stdout, Text.decodeUtf8Lossy child.stderr, child.status.code?,
      child.status.isSuccess⟩ = child.failure command := by
  simp only [ChildExit.failure, classifyFailure]

theorem ChildExit.failure_ne_decode (command : String) (child : ChildExit) (reason : String) :
    child.failure command ≠ .decode reason := by
  intro told
  rcases classifyFailure_cases command _ with ⟨_, same⟩ | ⟨_, same⟩ | ⟨_, same⟩ <;>
    cases same.symm.trans told

theorem Runner.output_of_text {invocation : Invocation} {child : ChildExit} {stdout : String}
    (text : Text.decodeUtf8 child.stdout = .ok stdout) :
    Runner.output invocation child =
      .ok ⟨stdout, Text.decodeUtf8Lossy child.stderr, child.status.code?,
        child.status.isSuccess⟩ := by
  rw [Runner.output, text]

/-- The complaint about output that is not UTF-8. -/
def garbledOutput (invocation : Invocation) (fault : Text.Utf8Fault) : GitError :=
  .decode s!"{invocation.text} wrote non-UTF-8 output: {fault.message}"

theorem Runner.output_of_fault {invocation : Invocation} {child : ChildExit}
    {fault : Text.Utf8Fault} (garbled : Text.decodeUtf8 child.stdout = .error fault) :
    Runner.output invocation child = .error (garbledOutput invocation fault) := by
  rw [Runner.output, garbled]
  rfl

/-- Under a live context, a process that ends in time is waited for. -/
theorem Stage.run_machineHost {runner : Runner} {credentials : Option Credentials} {stage : Stage}
    {invocation : Invocation} {child : ChildExit}
    (spawned : stage.world.toMachine.spawn (runner.settings credentials) invocation = .ok child)
    (inTime : runner.outlasted child.milliseconds = false) :
    (Stage.machineHost runner ⟨false, credentials⟩).run invocation stage =
      (Runner.output invocation child, stage) := by
  simp [Stage.machineHost, Runner.run, spawned, inTime]

namespace Executable

/-- What a plan that runs one command ends with when the command is a process that was waited
for. -/
structure ToldOfChild (host : Plan.Host σ) (plan : Plan α) (invocation : Invocation)
    (tell : GitError → GitError) (decode : String → Except GitError α) : Prop where
  classified_iff : ∀ state child after,
    host.run invocation state = (Runner.output invocation child, after) →
    child.status.isSuccess = false →
      (plan.execute host state = (.error (tell (child.failure invocation.text)), after) ↔
        ∃ stdout, Text.decodeUtf8 child.stdout = .ok stdout)
  garbled : ∀ state child after fault,
    host.run invocation state = (Runner.output invocation child, after) →
    Text.decodeUtf8 child.stdout = .error fault →
      plan.execute host state = (.error (garbledOutput invocation fault), after)
  decode_iff : ∀ state child after,
    host.run invocation state = (Runner.output invocation child, after) →
      ((∃ reason, (plan.execute host state).1 = .error (.decode reason)) ↔
        (∃ fault, Text.decodeUtf8 child.stdout = .error fault) ∨
          child.status.isSuccess = true ∧ ∃ stdout reason,
            Text.decodeUtf8 child.stdout = .ok stdout ∧ decode stdout = .error (.decode reason))

/-- A way to tell an error that leaves complaints about output alone. -/
def KeepsDecode (tell : GitError → GitError) : Prop :=
  ∀ error reason, tell error = .decode reason ↔ error = .decode reason

theorem keepsDecode_id : KeepsDecode id := fun _ _ => Iff.rfl

theorem keepsDecode_renamed (reference : String) : KeepsDecode (renamed reference) := by
  intro error reason
  cases error <;> simp [renamed]

section
variable {host : Plan.Host σ} {plan : Plan α} {invocation : Invocation}
variable {tell : GitError → GitError} {decode : String → Except GitError α}
variable {state after : σ} {child : ChildExit}

theorem DecidedByReply.of_fault (decided : DecidedByReply host plan invocation tell decode)
    (keeps : KeepsDecode tell)
    (waited : host.run invocation state = (Runner.output invocation child, after))
    {fault : Text.Utf8Fault} (garbled : Text.decodeUtf8 child.stdout = .error fault) :
    plan.execute host state = (.error (garbledOutput invocation fault), after) := by
  rw [Runner.output_of_fault garbled] at waited
  have kept : tell (garbledOutput invocation fault) = garbledOutput invocation fault :=
    (keeps _ _).mpr rfl
  rw [decided.stopped state _ after waited, kept]

theorem DecidedByReply.of_failure (decided : DecidedByReply host plan invocation tell decode)
    (waited : host.run invocation state = (Runner.output invocation child, after))
    (failed : child.status.isSuccess = false) {stdout : String}
    (text : Text.decodeUtf8 child.stdout = .ok stdout) :
    plan.execute host state = (.error (tell (child.failure invocation.text)), after) := by
  rw [Runner.output_of_text text] at waited
  rw [decided.failed state _ after waited failed, ChildExit.classifyFailure_eq]

theorem DecidedByReply.toldOfChild (decided : DecidedByReply host plan invocation tell decode)
    (keeps : KeepsDecode tell) : ToldOfChild host plan invocation tell decode := by
  refine ⟨?_, fun state child after fault waited => decided.of_fault keeps waited, ?_⟩
  · intro state child after waited failed
    constructor
    · intro outcome
      cases text : Text.decodeUtf8 child.stdout with
      | ok stdout => exact ⟨stdout, rfl⟩
      | error fault =>
        rw [decided.of_fault keeps waited text] at outcome
        have same := Except.error.inj (Prod.mk.inj outcome).1
        exact absurd ((keeps _ _).mp same.symm) (child.failure_ne_decode _ _)
    · rintro ⟨stdout, text⟩
      exact decided.of_failure waited failed text
  · intro state child after waited
    cases text : Text.decodeUtf8 child.stdout with
    | error fault =>
      rw [decided.of_fault keeps waited text]
      simp [garbledOutput]
    | ok stdout =>
      cases status : child.status.isSuccess with
      | false =>
        rw [decided.of_failure waited status text]
        have kept := child.failure_ne_decode invocation.text
        simp [keeps _ _, kept]
      | true =>
        rw [Runner.output_of_text text] at waited
        rw [decided.succeeded state _ after waited status]
        simp

end

/-- Whichever process a reading operation waited for: if it failed, the operation fails as its
complaint is classified just when what it printed is UTF-8, and output that is not UTF-8 is
complained about however the process ended. -/
theorem reads_told_of_child (host : Plan.Host σ) (program root : String) :
    (∀ (runner : Runner) credentials stage invocation child,
      stage.world.toMachine.spawn (runner.settings credentials) invocation = .ok child →
      runner.outlasted child.milliseconds = false →
      (Stage.machineHost runner ⟨false, credentials⟩).run invocation stage =
        (Runner.output invocation child, stage)) ∧
    (∀ request : Request,
      refusal? (usedRevisions request.branchRef request.oldest request.newest) = none →
      ∃ words, logArguments root request = .ok words ∧
        ToldOfChild host (commitsForRange program root request) ⟨program, words⟩ id
          fun output => decodeLog output root) ∧
    (∀ reference, refusal? [reference] = none →
      ∃ words, showArguments root reference = .ok words ∧
        ToldOfChild host (commitByReference program root reference) ⟨program, words⟩
          (renamed reference) (firstCommit root reference)) ∧
    (∀ revision other, refusal? (comparedRevisions revision other) = none →
      ∃ words, diffArguments root revision other = .ok words ∧
        ToldOfChild host (diffStats program root revision other) ⟨program, words⟩ id
          Numstat.parseFields) := by
  refine ⟨fun _ _ _ _ _ => Stage.run_machineHost, ?_, ?_, ?_⟩
  · intro request passes
    obtain ⟨words, passed, decided⟩ := commitsForRange_decided host program root passes
    exact ⟨words, passed, decided.toldOfChild keepsDecode_id⟩
  · intro reference passes
    obtain ⟨words, passed, decided⟩ := commitByReference_decided host program root passes
    exact ⟨words, passed, decided.toldOfChild (keepsDecode_renamed reference)⟩
  · intro revision other passes
    obtain ⟨words, passed, decided⟩ := diffStats_decided host program root passes
    exact ⟨words, passed, decided.toldOfChild keepsDecode_id⟩

/-- A host on which every command is the same process. -/
def Plan.Host.waiting (child : ChildExit) : Plan.Host Unit where
  run := fun invocation state => (Runner.output invocation child, state)
  makeDirectories := fun _ state => (.ok (), state)

/-- A process that does not know `v1` and prints the bytes of a text before it fails. -/
def unknownRevisionChild (stdout : List UInt8) : ChildExit :=
  ⟨stdout, Text.utf8 "fatal: bad revision 'v1'\n".toList, .exited 128, 0⟩

theorem unknownRevisionChild_failure (stdout : List UInt8) (command : String) :
    (unknownRevisionChild stdout).failure command = .notFound "v1" := by
  have complaint : Text.decodeUtf8Lossy (unknownRevisionChild stdout).stderr =
      "fatal: bad revision 'v1'\n" := Text.decodeUtf8Lossy_utf8 _
  rw [ChildExit.failure, complaint]
  change classifyFailure command (.failed 128 "fatal: bad revision 'v1'\n") = _
  rfl

/-- A machine on which nothing was put. -/
def bareStage : Stage where
  world := { tree := Program.bareTree, current := [], environment := [], stores := [] }

theorem reads_told_of_child_unknown_revision :
    (Stage.machineHost {} {}).run ⟨"false", []⟩ bareStage =
      (Runner.output ⟨"false", []⟩ (.failing 1 ""), bareStage) ∧
    refusal? (usedRevisions "v1" none none) = none ∧
    (commitsForRange "git" "/repo" ⟨"v1", "v1", 5, none, none⟩).execute
      (.waiting (unknownRevisionChild [])) () = (.error (.notFound "v1"), ()) ∧
    refusal? ["v1^0"] = none ∧
    (commitByReference "git" "/repo" "v1^0").execute (.waiting (unknownRevisionChild [])) () =
      (.error (.notFound "v1^0"), ()) ∧
    refusal? (comparedRevisions "v1" none) = none ∧
    ∃ reason, ((diffStats "git" "/repo" "v1" none).execute
      (.waiting (unknownRevisionChild [0xE9])) ()).1 = .error (.decode reason) := by
  obtain ⟨machine, log, lookup, -⟩ :=
    reads_told_of_child (.waiting (unknownRevisionChild [])) "git" "/repo"
  obtain ⟨-, -, -, diff⟩ :=
    reads_told_of_child (.waiting (unknownRevisionChild [0xE9])) "git" "/repo"
  have range : refusal? (usedRevisions "v1" none none) = none := by decide
  have named : refusal? ["v1^0"] = none := by decide
  have compared : refusal? (comparedRevisions "v1" none) = none := by decide
  have text : Text.decodeUtf8 (unknownRevisionChild []).stdout = .ok "" := by rfl
  obtain ⟨_, -, logged⟩ := log ⟨"v1", "v1", 5, none, none⟩ range
  obtain ⟨_, -, shown⟩ := lookup "v1^0" named
  obtain ⟨_, -, counted⟩ := diff "v1" none compared
  refine ⟨machine {} none bareStage _ _ (by rfl) rfl, range, ?_, named, ?_, compared, ?_⟩
  · rw [(logged.classified_iff () (unknownRevisionChild []) () rfl rfl).mpr ⟨"", text⟩,
      unknownRevisionChild_failure, id]
  · rw [(shown.classified_iff () (unknownRevisionChild []) () rfl rfl).mpr ⟨"", text⟩,
      unknownRevisionChild_failure, renamed]
  · exact (counted.decode_iff () (unknownRevisionChild [0xE9]) () rfl).mpr (.inl ⟨_, by rfl⟩)

/-- A revision that git does not know is not reported as such once a byte that is no text was
printed. -/
theorem failed_child_not_told :
    refusal? ["v1"] = none ∧
    (unknownRevisionChild [0xE9]).status.isSuccess = false ∧
    (∀ command, (unknownRevisionChild [0xE9]).failure command = .notFound "v1") ∧
    ((commitByReference "git" "/repo" "v1").execute
      (.waiting (unknownRevisionChild [0xE9])) ()).1 = .error (garbledOutput ⟨"git",
        ["-C", "/repo", "show", peeled "v1", dateOption, formatOption, "-s"]⟩ (.incomplete 0)) ∧
    ((commitByReference "git" "/repo" "v1").execute
      (.waiting (unknownRevisionChild [0xE9])) ()).1 ≠ .error (.notFound "v1") := by
  have outcome : ((commitByReference "git" "/repo" "v1").execute
      (.waiting (unknownRevisionChild [0xE9])) ()).1 = .error (garbledOutput ⟨"git",
        ["-C", "/repo", "show", peeled "v1", dateOption, formatOption, "-s"]⟩
          (.incomplete 0)) := by rfl
  refine ⟨by decide, by decide, unknownRevisionChild_failure _, outcome, ?_⟩
  rw [outcome]
  intro told
  cases told

end Executable

end GitHistory
