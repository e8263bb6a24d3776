import GitHistory.Proofs.Context
import GitHistory.Proofs.Executable.Reply
import GitHistory.Proofs.Files.Directories
import GitHistory.Proofs.InProcess.Opened
import GitHistory.Proofs.Manager.Guard

/-! Operations under a cancelled context. In-process none of them does anything; with the
executable no command is run, and all that can be left behind are the directories that making a
repository starts with. -/
namespace GitHistory

open Executable (refusal? comparedRevisions)

variable {program root url : String} {bare : Bool}
variable {host : Caller → Executable.Plan.Host Stage} {caller : Caller} {stage : Stage}

/-- A host that runs nothing for a cancelled caller but tells it so. -/
structure Heeds (host : Caller → Executable.Plan.Host Stage) : Prop where
  run : ∀ caller invocation stage, caller.cancelled = true →
    (host caller).run invocation stage = (.error .cancelled, stage)
  makeDirectories : ∀ caller, (host caller).makeDirectories = Stage.makeDirectories

theorem Runner.run_cancelled (cancelled : caller.cancelled = true) (runner : Runner)
    (machine : Machine) (invocation : Invocation) :
    runner.run machine caller invocation = .error .cancelled := if_pos cancelled

theorem heeds_machineHost (runner : Runner) : Heeds (Stage.machineHost runner) := by
  constructor
  · intro caller invocation stage cancelled
    exact congrArg (·, stage) (runner.run_cancelled cancelled _ invocation)
  · intro caller
    rfl

theorem heeds_rehearsalHost : Heeds Stage.rehearsalHost := by
  constructor
  · intro caller invocation stage cancelled
    simp [Stage.rehearsalHost, Stage.rehearse, cancelled]
  · intro caller
    rfl

/-- Whatever is read, the operation fails and leaves the stage alone; the failure depends on the
revisions used at most. -/
structure ReadsFail (manager : Manager) (caller : Caller) (stage : Stage)
    (failure : List String → GitError) : Prop where
  commitsForRange : ∀ checkout request, manager.commitsForRange caller checkout request stage =
    (.error (failure (usedRevisions request.branchRef request.oldest request.newest)), stage)
  commitByReference : ∀ path reference, manager.commitByReference caller path reference stage =
    (.error (failure [reference]), stage)
  diffStats : ∀ path revision other, manager.diffStats caller path revision other stage =
    (.error (failure (comparedRevisions revision other)), stage)

theorem readsFail_inProcess (cancelled : caller.cancelled = true) (stage : Stage) :
    ReadsFail .inProcess caller stage fun _ => .cancelled := by
  constructor
  · intro checkout request
    exact congrArg (·, stage) (if_pos cancelled)
  · intro path reference
    exact congrArg (·, stage) (if_pos cancelled)
  · intro path revision other
    exact congrArg (·, stage) (if_pos cancelled)

theorem init_inProcess (cancelled : caller.cancelled = true) (stage : Stage)
    (root url : String) (bare : Bool) :
    Manager.inProcess.init caller root url bare stage = (.error .cancelled, stage) := by
  simp [Manager.inProcess, InProcess.init, cancelled]

/-- A query fails for a revision that is refused, and otherwise because it is cancelled. -/
theorem Heeds.execute_query {α : Type} (heeds : Heeds host) (cancelled : caller.cancelled = true)
    {arguments : Except GitError (List String)} {revisions words : List String}
    (guarded : arguments = match refusal? revisions with
      | some error => .error error
      | none => .ok words)
    {conclude : Except GitError String → Except GitError α}
    (tells : conclude (.error .cancelled) = .error .cancelled) :
    (Executable.query program arguments conclude).execute (host caller) stage =
      (.error ((refusal? revisions).getD .cancelled), stage) := by
  cases passes : refusal? revisions with
  | some error =>
    rw [passes] at guarded
    exact Executable.execute_query_refused (host caller) guarded conclude stage
  | none =>
    rw [passes] at guarded
    rw [guarded, Executable.execute_query, heeds.run _ _ _ cancelled]
    exact congrArg (·, stage) tells

theorem Heeds.readsFail (heeds : Heeds host) (cancelled : caller.cancelled = true)
    (program : String) (stage : Stage) :
    ReadsFail (.executable program host) caller stage
      fun revisions => (refusal? revisions).getD .cancelled := by
  constructor
  · intro checkout request
    exact heeds.execute_query cancelled (Executable.logArguments_eq checkout.root request) rfl
  · intro path reference
    exact heeds.execute_query cancelled (Executable.showArguments_eq path.shown reference) rfl
  · intro path revision other
    exact heeds.execute_query cancelled (Executable.diffArguments_eq path.shown revision other) rfl

/-- What making a repository comes to when it is cancelled from the start: directories are made
as far as they are missing, and that is all. -/
structure MakesDirectoriesOnly (stage : Stage) (root : String)
    (outcome : Except GitError Unit × Stage) : Prop where
  failed : ∀ source, (stage.world.makeDirectories root).1 = .error source →
    outcome.1 = .error (.io root source)
  cancelled : (stage.world.makeDirectories root).1 = .ok () → outcome.1 = .error .cancelled
  gains : ∃ tree, stage.world.tree.GainsDirectories tree ∧
    outcome.2 = { stage with world := stage.world.setTree tree }
  untouched_iff : outcome.1 = .error .cancelled →
    (outcome.2 = stage ↔
      root.isEmpty = true ∨ stage.world.tree.isDirectory stage.world.current root = true)

theorem Heeds.execute_init (heeds : Heeds host) (cancelled : caller.cancelled = true)
    (passes : looksLikeOption url = false) :
    (Manager.executable program host).init caller root url bare stage =
      (match (stage.world.makeDirectories root).1 with
        | .error source => .error (.io root source)
        | .ok () => .error .cancelled,
      { stage with world := (stage.world.makeDirectories root).2 }) := by
  change (Executable.init program root url bare).execute (host caller) stage = _
  rw [Executable.init, if_neg (by simp [passes]), Executable.Plan.execute_makeDirectories,
    heeds.makeDirectories]
  simp only [Stage.makeDirectories]
  cases made : (stage.world.makeDirectories root).1 with
  | error source => rfl
  | ok _ =>
    rw [Executable.Plan.execute_run, heeds.run _ _ _ cancelled]
    rfl

theorem Heeds.makesDirectoriesOnly (heeds : Heeds host) (cancelled : caller.cancelled = true)
    (passes : looksLikeOption url = false) :
    MakesDirectoriesOnly stage root
      ((Manager.executable program host).init caller root url bare stage) := by
  rw [heeds.execute_init cancelled passes]
  constructor
  · intro source failed
    rw [failed]
  · intro made
    rw [made]
  · exact ⟨_, (FileTree.makeDirectories_adds _ _ _).gainsDirectories, rfl⟩
  · intro told
    rw [← FileTree.makeDirectories_eq_self_iff]
    constructor
    · intro same
      have tree := congrArg (fun stage : Stage => stage.world.tree) same
      cases made : (stage.world.makeDirectories root).1 with
      | error source =>
        rw [made] at told
        cases told
      | ok _ => exact Prod.ext made tree
    · intro same
      rw [World.makeDirectories, same]
      rfl

/-- Under a context that was cancelled, or shares the token of one that was, or descends from it,
every operation fails. Nothing is left of any of them but directories, and those only of making a
repository with the executable where there was no directory. -/
theorem cancelled_operations (program : String) (heeds : Heeds host) {contexts : Contexts}
    {steps : List Contexts.Step} {context : Context}
    (cancelled : contexts.isCancelled context = true ∨
      Contexts.CancelledAmong context contexts steps)
    (called : caller = (steps.foldl Contexts.apply contexts).caller context)
    (stage : Stage) (root : String) :
    (∀ (runner : Runner) machine invocation,
      runner.run machine caller invocation = .error .cancelled) ∧
    ReadsFail .inProcess caller stage (fun _ => .cancelled) ∧
    (∀ url bare,
      Manager.inProcess.init caller root url bare stage = (.error .cancelled, stage)) ∧
    ReadsFail (.executable program host) caller stage
      (fun revisions => (refusal? revisions).getD .cancelled) ∧
    ∀ url bare,
      (looksLikeOption url = true →
        (Manager.executable program host).init caller root url bare stage =
          (.error (.remote url "URL must not start with '-'"), stage)) ∧
      (looksLikeOption url = false → MakesDirectoriesOnly stage root
        ((Manager.executable program host).init caller root url bare stage)) := by
  have stopped : caller.cancelled = true := by
    rw [called]
    exact (Contexts.isCancelled_foldl contexts steps).mpr cancelled
  refine ⟨Runner.run_cancelled stopped, readsFail_inProcess stopped stage,
    init_inProcess stopped stage root, heeds.readsFail stopped program stage,
    fun url bare => ⟨?_, ?_⟩⟩
  · intro option
    change (Executable.init program root url bare).execute (host caller) stage = _
    rw [Executable.init, if_pos option]
    rfl
  · exact heeds.makesDirectoriesOnly stopped

/-- A child of a context that is cancelled, and a repository that is there already. -/
theorem cancelled_operations_child :
    Contexts.CancelledAmong ⟨⟨1, [0]⟩, none⟩ .start [.child 0, .cancel 0] ∧
    Manager.inProcess.init ⟨true, none⟩ "/repo" "https://example.com/x.git" true
      ⟨.ofStore .fresh, [], [], 0⟩ = (.error .cancelled, ⟨.ofStore .fresh, [], [], 0⟩) ∧
    (Manager.executable "git" Stage.rehearsalHost).commitByReference ⟨true, none⟩ "/repo" "v1"
      ⟨.ofStore .fresh, [], [], 0⟩ = (.error .cancelled, ⟨.ofStore .fresh, [], [], 0⟩) ∧
    looksLikeOption "https://example.com/x.git" = false ∧
    (Manager.executable "git" (Stage.machineHost {})).init ⟨true, none⟩ "/repo"
      "https://example.com/x.git" true ⟨.ofStore .fresh, [], [], 0⟩ =
        (.error .cancelled, ⟨.ofStore .fresh, [], [], 0⟩) := by
  have among : Contexts.CancelledAmong ⟨⟨1, [0]⟩, none⟩ .start [.child 0, .cancel 0] :=
    .later (.here rfl (by decide))
  obtain ⟨-, -, initInProcess, reads, -⟩ := cancelled_operations "git" heeds_rehearsalHost
    (.inr among) rfl ⟨.ofStore .fresh, [], [], 0⟩ "/repo"
  obtain ⟨-, -, -, -, inits⟩ := cancelled_operations "git" (heeds_machineHost {})
    (.inr among) rfl ⟨.ofStore .fresh, [], [], 0⟩ "/repo"
  have passes : looksLikeOption "https://example.com/x.git" = false := by decide
  have made := (inits "https://example.com/x.git" true).2 passes
  have present : (World.ofStore .fresh).tree.isDirectory [] "/repo" = true := by
    rw [FileTree.isDirectory, World.find_root]
  have kept := (FileTree.makeDirectories_eq_self_iff _ [] "/repo").mpr (.inr present)
  have told := made.cancelled (congrArg Prod.fst kept)
  exact ⟨among, initInProcess _ true, reads.commitByReference "/repo" "v1", passes,
    Prod.ext told ((made.untouched_iff told).mpr (.inr present))⟩

/-- Making a repository where there is nothing yet makes the directory all the same. -/
theorem cancelled_init_makes_directory :
    (Contexts.start.apply (.cancel 0)).caller ⟨⟨0, []⟩, none⟩ = ⟨true, none⟩ ∧
    FileTree.empty.entry? ["new"] = none ∧
    ((Manager.executable "git" (Stage.machineHost {})).init ⟨true, none⟩ "new"
      "https://example.com/x.git" false ⟨.blank, [], [], 0⟩).1 = .error .cancelled ∧
    ((Manager.executable "git" (Stage.machineHost {})).init ⟨true, none⟩ "new"
      "https://example.com/x.git" false ⟨.blank, [], [], 0⟩).2.world.tree.entry? ["new"] =
        some .directory := by
  have parts : Files.parts "new" = ["new"] := by decide +kernel
  have trimmed : FileTree.trimmedPath "new" = "new" := by decide +kernel
  have free : FileTree.empty.locate [] false (FileTree.trimmedPath "new") =
      .ok (.free [] "new") := by
    rw [trimmed, FileTree.locate, if_neg (by decide), if_neg (by decide),
      if_neg (by decide +kernel), parts, if_neg (by decide), FileTree.walk, if_neg (by decide),
      if_neg (by decide), if_neg (by decide +kernel)]
    rfl
  have named : "new".isEmpty = false := by decide
  have inTree : World.blank.tree.makeDirectories World.blank.current "new" = _ :=
    FileTree.makeDirectories_of_free named free
  have made : World.makeDirectories .blank "new" =
      (.ok (), World.setTree .blank (FileTree.empty.insert ["new"] .directory)) := by
    rw [World.makeDirectories, inTree]
    rfl
  rw [(heeds_machineHost {}).execute_init rfl (by decide), made]
  exact ⟨rfl, rfl, rfl, rfl⟩

end GitHistory
