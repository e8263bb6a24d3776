import GitHistory.Executable.Plan

/-! The commands that carrying out a plan runs, as a host that keeps a record sees them. -/
namespace GitHistory.Executable.Plan

variable {α σ : Type}

/-- A host that keeps a record of the commands it is asked to run. -/
def Host.recording (host : Host σ) : Host (σ × List Invocation) where
  run := fun invocation (state, calls) =>
    let (reply, state) := host.run invocation state
    (reply, state, calls ++ [invocation])
  makeDirectories := fun path (state, calls) =>
    let (made, state) := host.makeDirectories path state
    (made, state, calls)

/-- The commands that a plan runs on a host, in order. -/
def calls (host : Host σ) (plan : Plan α) (state : σ) : List Invocation :=
  (plan.execute host.recording (state, [])).2.2

@[simp] theorem execute_done (host : Host σ) (result : Except GitError α) (state : σ) :
    (done result).execute host state = (result, state) := rfl

@[simp] theorem execute_run (host : Host σ) (invocation : Invocation)
    (next : Except GitError CommandOutput → Plan α) (state : σ) :
    (run invocation next).execute host state =
      (next (host.run invocation state).1).execute host (host.run invocation state).2 := rfl

@[simp] theorem execute_makeDirectories (host : Host σ) (path : String)
    (next : Except IoError Unit → Plan α) (state : σ) :
    (makeDirectories path next).execute host state =
      (next (host.makeDirectories path state).1).execute host
        (host.makeDirectories path state).2 := rfl

theorem exists_calls (host : Host σ) (plan : Plan α) (state : σ) :
    ∃ later : List Invocation, (∀ call ∈ later, plan.Runs call) ∧
      ∀ before, plan.execute host.recording (state, before) =
        ((plan.execute host state).1, (plan.execute host state).2, before ++ later) := by
  induction plan generalizing state with
  | done result => exact ⟨[], by simp, by simp⟩
  | run invocation next ih =>
    obtain ⟨later, runs, recorded⟩ :=
      ih (host.run invocation state).1 (host.run invocation state).2
    refine ⟨invocation :: later, List.forall_mem_cons.mpr ⟨.here next, fun call member =>
      .afterRun invocation next _ (runs call member)⟩, fun before => ?_⟩
    have going := recorded (before ++ [invocation])
    rw [List.append_assoc] at going
    exact going
  | makeDirectories path next ih =>
    obtain ⟨later, runs, recorded⟩ :=
      ih (host.makeDirectories path state).1 (host.makeDirectories path state).2
    exact ⟨later, fun call member => .afterDirectories path next _ (runs call member), recorded⟩

/-- Keeping a record changes nothing else. -/
theorem execute_recording (host : Host σ) (plan : Plan α) (state : σ) (before : List Invocation) :
    plan.execute host.recording (state, before) =
      ((plan.execute host state).1, (plan.execute host state).2,
        before ++ plan.calls host state) := by
  obtain ⟨later, _, recorded⟩ := exists_calls host plan state
  simp [calls, recorded]

/-- Whatever a plan runs on a host can be read off the plan. -/
theorem runs_of_mem_calls {host : Host σ} {plan : Plan α} {state : σ} {call : Invocation}
    (member : call ∈ plan.calls host state) : plan.Runs call := by
  obtain ⟨later, runs, recorded⟩ := exists_calls host plan state
  rw [calls, recorded] at member
  exact runs call member

@[simp] theorem calls_done (host : Host σ) (result : Except GitError α) (state : σ) :
    (done result).calls host state = [] := rfl

@[simp] theorem calls_run (host : Host σ) (invocation : Invocation)
    (next : Except GitError CommandOutput → Plan α) (state : σ) :
    (run invocation next).calls host state =
      invocation :: (next (host.run invocation state).1).calls host
        (host.run invocation state).2 := by
  have going := execute_recording host (next (host.run invocation state).1)
    (host.run invocation state).2 [invocation]
  exact congrArg (·.2.2) going

@[simp] theorem calls_makeDirectories (host : Host σ) (path : String)
    (next : Except IoError Unit → Plan α) (state : σ) :
    (makeDirectories path next).calls host state =
      (next (host.makeDirectories path state).1).calls host
        (host.makeDirectories path state).2 := rfl

end GitHistory.Executable.Plan
