import GitHistory.Proofs.Executable.Reply

/-! Making a repository takes two commands at most, and how it ends tells which of them ran: the
failure of the first is one of the repository, the failure of the second one of the remote, and
only a cancellation keeps its name. -/
namespace GitHistory.Executable

variable {σ : Type}

/-- How a reply to a command that did not succeed is told as the failure of a step. -/
inductive StepFails (invocation : Invocation) (tell : String → GitError) :
    Except GitError CommandOutput → GitError → Prop where
  | cancelled : StepFails invocation tell (.error .cancelled) .cancelled
  | unanswered {error : GitError} (other : error ≠ .cancelled) :
      StepFails invocation tell (.error error) (tell error.message)
  | unsuccessful {output : CommandOutput} (failed : output.success = false) :
      StepFails invocation tell (.ok output)
        (tell (classifyFailure invocation.text output).message)

theorem stepFailure_of_ne {error : GitError} (other : error ≠ .cancelled)
    (tell : String → GitError) : stepFailure tell error = tell error.message := by
  cases error with
  | cancelled => exact absurd rfl other
  | _ => rfl

theorem classifyFailure_ne_cancelled (command : String) (output : CommandOutput) :
    classifyFailure command output ≠ .cancelled := by
  rcases classifyFailure_cases command output with ⟨_, same⟩ | ⟨_, same⟩ | ⟨_, same⟩ <;>
    simp [same]

/-- A reply either is that of a command that succeeded, or it makes the step fail. -/
theorem succeeds_or_stepFails (invocation : Invocation) (tell : String → GitError)
    (reply : Except GitError CommandOutput) :
    (∃ output, reply = .ok output ∧ output.success = true) ∨
      ∃ error, StepFails invocation tell reply error := by
  cases reply with
  | error error =>
    by_cases other : error = .cancelled
    · subst other
      exact .inr ⟨_, .cancelled⟩
    · exact .inr ⟨_, .unanswered other⟩
  | ok output =>
    cases success : output.success with
    | true => exact .inl ⟨output, rfl, success⟩
    | false => exact .inr ⟨_, .unsuccessful success⟩

theorem StepFails.printed {invocation : Invocation} {tell : String → GitError}
    {reply : Except GitError CommandOutput} {error : GitError}
    (fails : StepFails invocation tell reply error) :
    ∃ cause, printed invocation reply = .error cause ∧ stepFailure tell cause = error := by
  cases fails with
  | cancelled => exact ⟨.cancelled, rfl, rfl⟩
  | unanswered other => exact ⟨_, rfl, stepFailure_of_ne other tell⟩
  | unsuccessful failed =>
    exact ⟨_, printed_failed failed, stepFailure_of_ne (classifyFailure_ne_cancelled _ _) tell⟩

section
variable (program root url : String) (bare : Bool)

/-- The command that makes a repository, word for word. -/
def makeCommand : Invocation :=
  ⟨program, ["-C", root, "init"] ++ if bare then ["--bare"] else []⟩

/-- The command that registers the remote repository, word for word. -/
def registerCommand : Invocation := ⟨program, ["-C", root, "remote", "add", "origin", url]⟩

theorem makeCommand_eq : makeCommand program root bare = ⟨program, initArguments root bare⟩ := rfl

theorem registerCommand_eq :
    registerCommand program root url = ⟨program, remoteArguments root url⟩ := rfl

/-- How making a repository goes: what it ends with, which commands ran, and what is left. -/
inductive InitCourse (host : Plan.Host σ) (state : σ) :
    Except GitError Unit → List Invocation → σ → Prop where
  | refused (option : looksLikeOption url = true) :
      InitCourse host state (.error (.remote url "URL must not start with '-'")) [] state
  | undirected {source : IoError} {after : σ} (passes : looksLikeOption url = false)
      (unmade : host.makeDirectories root state = (.error source, after)) :
      InitCourse host state (.error (.io root source)) [] after
  | uninitialized {made after : σ} {reply : Except GitError CommandOutput} {error : GitError}
      (passes : looksLikeOption url = false)
      (directory : host.makeDirectories root state = (.ok (), made))
      (ran : host.run (makeCommand program root bare) made = (reply, after))
      (fails : StepFails (makeCommand program root bare) (.init root) reply error) :
      InitCourse host state (.error error) [makeCommand program root bare] after
  | unregistered {made initialized after : σ} {output : CommandOutput}
      {reply : Except GitError CommandOutput} {error : GitError}
      (passes : looksLikeOption url = false)
      (directory : host.makeDirectories root state = (.ok (), made))
      (ran : host.run (makeCommand program root bare) made = (.ok output, initialized))
      (success : output.success = true)
      (next : host.run (registerCommand program root url) initialized = (reply, after))
      (fails : StepFails (registerCommand program root url) (.remote url) reply error) :
      InitCourse host state (.error error)
        [makeCommand program root bare, registerCommand program root url] after
  | completed {made initialized after : σ} {first second : CommandOutput}
      (passes : looksLikeOption url = false)
      (directory : host.makeDirectories root state = (.ok (), made))
      (ran : host.run (makeCommand program root bare) made = (.ok first, initialized))
      (success : first.success = true)
      (next : host.run (registerCommand program root url) initialized = (.ok second, after))
      (done : second.success = true) :
      InitCourse host state (.ok ())
        [makeCommand program root bare, registerCommand program root url] after

/-- The sequences of commands that an outcome leaves possible. Only a cancellation leaves open
whether the second command ran. -/
def toldCommands : Except GitError Unit → List (List Invocation)
  | .ok () => [[makeCommand program root bare, registerCommand program root url]]
  | .error (.io ..) => [[]]
  | .error (.init ..) => [[makeCommand program root bare]]
  | .error (.remote ..) =>
    if looksLikeOption url then [[]]
    else [[makeCommand program root bare, registerCommand program root url]]
  | .error .cancelled =>
    [[makeCommand program root bare],
      [makeCommand program root bare, registerCommand program root url]]
  | .error _ => []

end

section
variable {host : Plan.Host σ} {program root url : String} {bare : Bool} {state after : σ}
variable {result : Except GitError Unit} {calls : List Invocation}

/-- A course is what carrying the plan out does. -/
theorem InitCourse.eq_execute
    (course : InitCourse program root url bare host state result calls after) :
    (init program root url bare).execute host state = (result, after) ∧
      (init program root url bare).calls host state = calls := by
  cases course with
  | refused option =>
    rw [init, if_pos option]
    exact ⟨rfl, rfl⟩
  | undirected passes unmade =>
    rw [init, if_neg (by simp [passes])]
    simp [unmade]
  | uninitialized passes directory ran fails =>
    obtain ⟨cause, failed, rfl⟩ := fails.printed
    rw [makeCommand_eq] at ran failed
    rw [init, if_neg (by simp [passes])]
    simp [directory, ran, failed, makeCommand_eq]
  | unregistered passes directory ran success next fails =>
    obtain ⟨cause, failed, rfl⟩ := fails.printed
    rw [makeCommand_eq] at ran
    rw [registerCommand_eq] at next failed
    rw [init, if_neg (by simp [passes])]
    simp [directory, ran, printed_succeeded success, next, failed, makeCommand_eq, registerCommand_eq]
  | completed passes directory ran success next done =>
    rw [makeCommand_eq] at ran
    rw [registerCommand_eq] at next
    rw [init, if_neg (by simp [passes])]
    simp [directory, ran, printed_succeeded success, next, printed_succeeded done, makeCommand_eq,
      registerCommand_eq]

theorem exists_initCourse (host : Plan.Host σ) (program root url : String) (bare : Bool)
    (state : σ) :
    ∃ result calls after, InitCourse program root url bare host state result calls after := by
  cases passes : looksLikeOption url with
  | true => exact ⟨_, _, _, .refused passes⟩
  | false =>
    rcases directory : host.makeDirectories root state with ⟨made, before⟩
    cases made with
    | error source => exact ⟨_, _, _, .undirected passes directory⟩
    | ok _ =>
      rcases ran : host.run (makeCommand program root bare) before with ⟨reply, initialized⟩
      rcases succeeds_or_stepFails (makeCommand program root bare) (.init root) reply with
        ⟨output, rfl, success⟩ | ⟨error, fails⟩
      · rcases next : host.run (registerCommand program root url) initialized with ⟨reply, after⟩
        rcases succeeds_or_stepFails (registerCommand program root url) (.remote url) reply with
          ⟨second, rfl, done⟩ | ⟨error, fails⟩
        · exact ⟨_, _, _, .completed passes directory ran success next done⟩
        · exact ⟨_, _, _, .unregistered passes directory ran success next fails⟩
      · exact ⟨_, _, _, .uninitialized passes directory ran fails⟩

theorem StepFails.cancelled_or_told {invocation : Invocation} {tell : String → GitError}
    {reply : Except GitError CommandOutput} {error : GitError}
    (fails : StepFails invocation tell reply error) :
    error = .cancelled ∨ ∃ reason, error = tell reason := by
  cases fails with
  | cancelled => exact .inl rfl
  | unanswered other => exact .inr ⟨_, rfl⟩
  | unsuccessful failed => exact .inr ⟨_, rfl⟩

theorem InitCourse.calls_mem_told
    (course : InitCourse program root url bare host state result calls after) :
    calls ∈ toldCommands program root url bare result := by
  cases course with
  | refused option => simp [toldCommands, option]
  | undirected passes unmade => simp [toldCommands]
  | uninitialized passes directory ran fails =>
    rcases fails.cancelled_or_told with rfl | ⟨reason, rfl⟩ <;> simp [toldCommands]
  | unregistered passes directory ran success next fails =>
    rcases fails.cancelled_or_told with rfl | ⟨reason, rfl⟩ <;> simp [toldCommands, passes]
  | completed passes directory ran success next done => simp [toldCommands]

theorem kind_of_toldCommands {error : GitError}
    (told : calls ∈ toldCommands program root url bare (.error error)) :
    error.kind ∈ [ErrorKind.io, .init, .remote, .cancelled] := by
  cases error <;> simp [toldCommands, GitError.kind] at told ⊢

end

/-- Making a repository follows exactly one course, whatever the host answers. The outcome tells
which commands ran, and no failure of another kind gets out. -/
theorem init_tells_commands (host : Plan.Host σ) (program root url : String) (bare : Bool)
    (state : σ) :
    (∀ result calls after, InitCourse program root url bare host state result calls after ↔
      (init program root url bare).execute host state = (result, after) ∧
        (init program root url bare).calls host state = calls) ∧
    (init program root url bare).calls host state ∈
      toldCommands program root url bare ((init program root url bare).execute host state).1 ∧
    ∀ error, ((init program root url bare).execute host state).1 = .error error →
      error.kind ∈ [ErrorKind.io, .init, .remote, .cancelled] := by
  obtain ⟨ended, ran, left, course⟩ := exists_initCourse host program root url bare state
  obtain ⟨executed, called⟩ := course.eq_execute
  refine ⟨?_, ?_, ?_⟩
  · intro result calls after
    constructor
    · exact InitCourse.eq_execute
    · rintro ⟨same, rfl⟩
      obtain ⟨rfl, rfl⟩ := Prod.mk.inj (executed.symm.trans same)
      rw [called]
      exact course
  · rw [executed, called]
    exact course.calls_mem_told
  · intro error failed
    rw [executed] at failed
    obtain rfl : ended = .error error := failed
    exact kind_of_toldCommands course.calls_mem_told

theorem init_tells_commands_rejected :
    ((init "git" "/new" "https://example.com/x.git" true).execute
      (.answering (.failed 128 "fatal: Authentication failed\n")) ()).1 =
        .error (.init "/new" ("Authentication failed for `git -C /new init --bare`: " ++
          "fatal: Authentication failed")) ∧
    ErrorKind.init ∈ [ErrorKind.io, .init, .remote, .cancelled] := by
  have outcome : ((init "git" "/new" "https://example.com/x.git" true).execute
      (.answering (.failed 128 "fatal: Authentication failed\n")) ()).1 =
        .error (.init "/new" ("Authentication failed for `git -C /new init --bare`: " ++
          "fatal: Authentication failed")) := by rfl
  exact ⟨outcome, (init_tells_commands (.answering _) "git" "/new" _ true ()).2.2 _ outcome⟩

end GitHistory.Executable
