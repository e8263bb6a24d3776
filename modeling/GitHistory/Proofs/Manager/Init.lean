import GitHistory.Manager
import GitHistory.Proofs.InProcess.Init
import GitHistory.Proofs.InProcess.Opened

/-! A remote repository whose URL looks like an option. The executable is never asked to register
it; in-process it is treated like any other. -/
namespace GitHistory

variable {url : String}

theorem url_named (option : looksLikeOption url = true) : url.isEmpty = false := by
  cases empty : url.isEmpty with
  | false => rfl
  | true =>
    rw [String.isEmpty_iff.mp empty] at option
    exact absurd option (by decide)

theorem inProcess_init_iff {caller : Caller} {root : String} {bare : Bool} {stage after : Stage}
    {result : Except GitError Unit} :
    Manager.inProcess.init caller root url bare stage = (result, after) ↔
      InProcess.init stage.world caller root url bare = (result, after.world) ∧
        after = { stage with world := after.world } := by
  generalize outcome : InProcess.init stage.world caller root url bare = made
  have same : Manager.inProcess.init caller root url bare stage =
      (made.1, { stage with world := made.2 }) := by
    rw [← outcome]
    rfl
  rw [same]
  constructor
  · intro ended
    cases ended
    exact ⟨rfl, rfl⟩
  · rintro ⟨rfl, kept⟩
    exact congrArg (result, ·) kept.symm

/-- With the executable such a URL is refused before anything happens. In-process it fails without a
trace just where there is a repository already that cannot take it: one that has an `origin`, or
none could have it because of a NUL. Where it does not fail, it is registered. -/
theorem init_option_url (option : looksLikeOption url = true) (program : String)
    (host : Caller → Executable.Plan.Host Stage) (caller : Caller) (stage : Stage) (root : String)
    (bare : Bool) :
    (Manager.executable program host).init caller root url bare stage =
      (.error (.remote url "URL must not start with '-'"), stage) ∧
    ((∃ reason, Manager.inProcess.init caller root url bare stage =
        (.error (.remote url reason), stage)) ↔
      caller.cancelled = false ∧ ∃ route, InProcess.HasRepository stage.world root bare route ∧
        InProcess.Unregistrable (stage.world.storeAt route) url) ∧
    ∀ after, Manager.inProcess.init caller root url bare stage = (.ok (), after) →
      ∃ route, after.world.HasMetadata route ∧
        (after.world.storeAt route).remotes.lookup "origin" = some url := by
  refine ⟨?_, ?_, ?_⟩
  · change (Executable.init program root url bare).execute (host caller) stage = _
    rw [Executable.init, if_pos option]
    rfl
  · rw [← InProcess.init_untouched_iff (url_named option)]
    refine exists_congr fun reason => ?_
    rw [inProcess_init_iff]
    exact and_iff_left rfl
  · intro after made
    exact InProcess.init_ok (inProcess_init_iff.mp made).1

/-- A repository with everything in it, and an `origin` registered. -/
def stageWithOrigin : Stage where
  world :=
    (World.ofStore { Store.fresh with remotes := [("origin", "/srv/x.git")] }).fillGitDirectory
      ["repo"]

theorem hasRepository_stageWithOrigin :
    InProcess.HasRepository stageWithOrigin.world "/repo" true ["repo"] := by
  have stands : stageWithOrigin.world.tree.entry? ["repo"] = some .directory := rfl
  obtain ⟨isPlace, located⟩ := FileTree.locate_repo stands
  have opened : InProcess.gitDirectoryIn stageWithOrigin.world ["repo"] = .ok ["repo"] :=
    InProcess.gitDirectoryIn_of_furnished isPlace rfl
      (InProcess.furnished_of_entries rfl rfl rfl) (by decide) (by decide)
  exact ⟨FileTree.isDirectory_of_located located, "/repo", ["repo"], rfl, located,
    World.hasLayout_fillGitDirectory _ _, opened⟩

theorem init_option_url_registered :
    looksLikeOption "--upload-pack=x" = true ∧
    (Manager.executable "git" (Stage.machineHost {})).init {} "/repo" "--upload-pack=x" true
      stageWithOrigin =
        (.error (.remote "--upload-pack=x" "URL must not start with '-'"), stageWithOrigin) ∧
    ∃ reason, Manager.inProcess.init {} "/repo" "--upload-pack=x" true stageWithOrigin =
      (.error (.remote "--upload-pack=x" reason), stageWithOrigin) := by
  have option : looksLikeOption "--upload-pack=x" = true := by decide
  obtain ⟨executable, inProcess, -⟩ := init_option_url option "git" (Stage.machineHost {}) {}
    stageWithOrigin "/repo" true
  exact ⟨option, executable,
    inProcess.mpr ⟨rfl, ["repo"], hasRepository_stageWithOrigin, .inr rfl⟩⟩

/-- A machine with nothing on it. -/
def blankStage : Stage where
  world := .blank

/-- The same machine with one directory. -/
def newWorld : World := blankStage.world.setTree (FileTree.empty.insert ["new"] .directory)

theorem isName_new : FileTree.IsName "new" :=
  ⟨by decide, by decide, by decide, by decide, by decide⟩

theorem makeDirectories_blank : blankStage.world.makeDirectories "new" = (.ok (), newWorld) := by
  have made : blankStage.world.tree.makeDirectories blankStage.world.current "new" = _ :=
    FileTree.makeDirectories_of_name isName_new rfl
  rw [World.makeDirectories, made]
  rfl

theorem makes_newWorld :
    InProcess.Makes newWorld "new" true ["new"] (newWorld.fillGitDirectory ["new"]) := by
  have stands : newWorld.tree.entry? ([] ++ ["new"]) = some .directory := rfl
  have found : newWorld.tree.locate [] true "new" = .ok (.present ["new"] .directory) := by
    rw [isName_new.locate_eq, FileTree.walk_into isName_new stands, FileTree.walk]
    rfl
  exact .there rfl found

theorem gitDirectoryIn_newWorld :
    InProcess.gitDirectoryIn (newWorld.fillGitDirectory ["new"]) ["new"] = .ok ["new"] := by
  have isPlace : (newWorld.fillGitDirectory ["new"]).tree.IsPlace ["new"] :=
    .within .root isName_new.isStep isName_new.solid rfl
  exact InProcess.gitDirectoryIn_of_furnished isPlace rfl
    (InProcess.furnished_of_entries rfl rfl rfl) (by decide) (by decide)

/-- In-process a repository is made, and the text that looks like an option registered in it. -/
theorem init_registers_option_url :
    looksLikeOption "-x" = true ∧
    blankStage.world.tree.entry? ["new"] = none ∧
    ∃ after, Manager.inProcess.init {} "new" "-x" true blankStage = (.ok (), after) ∧
      after.world.tree.entry? ["new"] = some .directory ∧
      after.world.HasMetadata ["new"] ∧
      (after.world.storeAt ["new"]).remotes.lookup "origin" = some "-x" := by
  have registered : InProcess.addOrigin ((newWorld.fillGitDirectory ["new"]).storeAt ["new"]) "-x" =
      .ok { Store.fresh with remotes := [("origin", "-x")] } := rfl
  have course := InProcess.InitCourse.completed (rfl : (Caller.mk false none).cancelled = false)
    makeDirectories_blank (makes_newWorld.makeRepository gitDirectoryIn_newWorld) registered
  have complete := InProcess.hasMetadata_of_gitDirectoryIn gitDirectoryIn_newWorld
  refine ⟨by decide, rfl, { blankStage with world := World.setStore _ ["new"] _ },
    inProcess_init_iff.mpr ⟨course.eq_init, rfl⟩, rfl, complete, ?_⟩
  rw [InProcess.storeAt_setStore]
  rfl

end GitHistory
