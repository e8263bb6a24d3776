import GitHistory.Proofs.InProcess.Openable
import GitHistory.Proofs.Manager.Init

/-! What is left of making a repository in-process can be opened, also when its remote repository
could not be registered. The exception is a repository that is overlooked. -/
namespace GitHistory

open FileTree InProcess

/-- A repository that was made is opened by its path from the same directory, unless it is
overlooked there. Where all went well it has the `origin` asked for, and to make it once more fails
for that and changes nothing. -/
theorem init_openable {stage after : Stage} {caller : Caller} {root url : String} {bare : Bool}
    {result : Except GitError Unit} (start : stage.world.tree.IsPlace stage.world.current)
    (ended : Manager.inProcess.init caller root url bare stage = (result, after))
    (remote : ∀ error, result = .error error → error.kind = .remote) :
    after.world.current = stage.world.current ∧
    (∃ full, Openable after.world root bare full) ∧
    (result = .ok () →
      (∃ path store, newGitDirectory root bare = .ok path ∧
        openStore after.world path = .ok store ∧ store.remotes.lookup "origin" = some url) ∧
      ∀ again : Caller, again.cancelled = false → ∀ other, ∃ reason,
        Manager.inProcess.init again root other bare after =
          (.error (.remote other reason), after)) := by
  obtain ⟨made, -⟩ := inProcess_init_iff.mp ended
  obtain ⟨same, inside, route, has, origin⟩ := hasRepository_of_init start made remote
  refine ⟨same, has.openable inside, fun ok => ⟨?_, fun again live other => ?_⟩⟩
  · obtain ⟨path, named, opened⟩ := has.openStore
    exact ⟨path, _, named, opened, origin ok⟩
  · have registered : ((after.world.storeAt route).remotes.lookup "origin").isSome := by
      rw [origin ok]
      rfl
    obtain ⟨reason, failed⟩ := has.init_again registered live other
    exact ⟨reason, inProcess_init_iff.mpr ⟨failed, rfl⟩⟩

/-- The new directory with the `.git` of a new repository in it. -/
def newRepository : World :=
  (newWorld.setTree (newWorld.tree.insert ["new", ".git"] .directory)).fillGitDirectory
    ["new", ".git"]

theorem makeRepository_newWorld :
    makeRepository newWorld "new" false = (.ok ["new", ".git"], newRepository) := by
  have path : newGitDirectory "new" false = .ok "new/.git" := by decide
  have parts : Files.parts "new/.git" = ["new", ".git"] := by decide
  have usable : IsUsable "new/.git" := ⟨by decide, by decide, by decide⟩
  have free : newWorld.tree.locate newWorld.current true "new/.git" =
      .ok (.free ["new"] ".git") := by
    rw [locate_eq usable, parts, walk_into isName_new rfl,
      walk_to_free isName_git rfl]
    rfl
  have isPlace : newRepository.tree.IsPlace ["new", ".git"] :=
    .within (.within .root isName_new.isStep isName_new.solid rfl) isName_git.isStep
      isName_git.solid rfl
  have opened : gitDirectoryIn newRepository ["new", ".git"] = .ok ["new", ".git"] :=
    gitDirectoryIn_of_furnished isPlace rfl (furnished_of_entries rfl rfl rfl)
      (by decide) (by decide)
  exact (Makes.inserted path free).makeRepository opened

theorem init_openable_new :
    blankStage.world.tree.IsPlace blankStage.world.current ∧
    ∃ after, Manager.inProcess.init {} "new" "/srv/x.git" false blankStage = (.ok (), after) ∧
      openCheckout after.world.tree after.world.current "new" = .ok ⟨"/new"⟩ ∧
      (∃ store, openStore after.world "new/.git" = .ok store ∧
        store.remotes.lookup "origin" = some "/srv/x.git") ∧
      ∃ reason, Manager.inProcess.init {} "new" "/srv/y.git" false after =
        (.error (.remote "/srv/y.git" reason), after) := by
  have registered : addOrigin (newRepository.storeAt ["new", ".git"]) "/srv/x.git" =
      .ok { Store.fresh with remotes := [("origin", "/srv/x.git")] } := rfl
  have course := InitCourse.completed (rfl : (Caller.mk false none).cancelled = false)
    makeDirectories_blank makeRepository_newWorld registered
  obtain ⟨after, ended⟩ : ∃ after,
      Manager.inProcess.init {} "new" "/srv/x.git" false blankStage = (.ok (), after) :=
    ⟨{ blankStage with world := World.setStore _ _ _ },
      inProcess_init_iff.mpr ⟨course.eq_init, rfl⟩⟩
  obtain ⟨same, ⟨full, openable⟩, whole⟩ := init_openable .root ended nofun
  have rooted := openable.rooted
  rw [same] at rooted
  obtain rfl : "/new" = full := Except.ok.inj rooted
  obtain ⟨⟨path, store, named, opened, origin⟩, again⟩ := whole rfl
  have git : newGitDirectory "new" false = .ok "new/.git" := by decide
  obtain rfl : "new/.git" = path := Except.ok.inj (git.symm.trans named)
  have found : ¬Overlooked (after.world.tree.lookup after.world.current) "/new" :=
    fun overlooked => absurd (openable.within overlooked) (by decide)
  exact ⟨.root, after, ended, openable.opened.mpr found, ⟨store, opened, origin⟩,
    again {} rfl "/srv/y.git"⟩

/-- The names on the way through a link to its own directory, twenty times. -/
def winding : List String := List.replicate 20 "l"

/-- A path of the directory `/a`, through as many links. -/
def windingRoot : String := Route.text ("a" :: winding)

/-- A repository without a working tree in the directory, whose `HEAD` is reached through as many
links again. -/
def windingStage : Stage where
  world := { World.blank with
    tree := ⟨[
      (["a"], .directory),
      (["a", "objects"], .directory),
      (["a", "refs"], .directory),
      (["a", "h"], .file "ref: refs/heads/main\n" false),
      (["a", "l"], .link "."),
      (["a", "HEAD"], .link (Files.joinNames (winding ++ ["h"])))]⟩ }

/-- What making a repository adds to it. -/
def windingWorld : World := windingStage.world.fillGitDirectory ["a"]

theorem isName_l : IsName "l" :=
  ⟨by decide, by decide, by decide, by decide, by decide⟩

theorem isName_h : IsName "h" :=
  ⟨by decide, by decide, by decide, by decide, by decide⟩

theorem isName_a : IsName "a" :=
  ⟨by decide, by decide, by decide, by decide, by decide⟩

theorem isUsable_windingRoot : IsUsable windingRoot :=
  ⟨by decide, by decide, by decide⟩

theorem arrives_windingRoot {tree : FileTree} (stands : tree.entry? ["a"] = some .directory)
    (link : tree.entry? ["a", "l"] = some (.link ".")) :
    Arrives tree [] windingRoot 20 ["a"] where
  named := by decide
  leads := by
    have parts : Files.parts windingRoot = "" :: "a" :: winding := by decide
    rw [ite_self, parts]
    exact .skip (.inl rfl) (.down isName_a.isStep stands
      (leads_replicate isName_l.isStep link 20 20))

theorem walk_head (links : Nat) :
    windingWorld.tree.walk true (links + 1) ["a"] ["HEAD"] =
      windingWorld.tree.walk true links ["a"] (winding ++ ["h"]) := by
  have target : Files.parts (Files.joinNames (winding ++ ["h"])) = winding ++ ["h"] := by
    decide
  have relative : Files.isAbsolute (Files.joinNames (winding ++ ["h"])) = false := by
    decide
  have link : windingWorld.tree.entry? (["a"] ++ ["HEAD"]) =
      some (.link (Files.joinNames (winding ++ ["h"]))) := rfl
  rw [isName_head.isStep.walk_cons, link]
  simp [target, relative]

theorem furnished_winding : Furnished windingWorld.tree ["a"] where
  head := by
    have link : windingWorld.tree.entry? (["a"] ++ ["l"]) = some (.link ".") := rfl
    have file : windingWorld.tree.entry? (["a"] ++ ["h"]) =
        some (.file "ref: refs/heads/main\n" false) := rfl
    have passed := leads_replicate isName_l.isStep link 19 20
    have walked : windingWorld.tree.walk true linkLimit ["a"] ["HEAD"] =
        .ok (.present (["a"] ++ ["h"]) (.file "ref: refs/heads/main\n" false)) := by
      rw [linkLimit, walk_head, winding, passed.walk_append (.inr rfl),
        isName_h.isStep.walk_last file (.inr nofun)]
    exact ⟨_, _, _, walked⟩
  objects := by
    have stands : windingWorld.tree.entry? (["a"] ++ ["objects"]) = some .directory := rfl
    exact ⟨_, isName_objects.isStep.walk_last stands (.inr nofun) linkLimit⟩
  refs := by
    have stands : windingWorld.tree.entry? (["a"] ++ ["refs"]) = some .directory := rfl
    exact ⟨_, isName_refs.isStep.walk_last stands (.inr nofun) linkLimit⟩

theorem gitDirectoryIn_winding : gitDirectoryIn windingWorld ["a"] = .ok ["a"] :=
  gitDirectoryIn_of_furnished (.within .root isName_a.isStep isName_a.solid rfl) rfl
    furnished_winding (by decide) (by decide)

/-- Nothing is at `.git`, and `HEAD` is too many links away. -/
theorem overlooked_winding : Overlooked (windingWorld.tree.lookup []) windingRoot := by
  have link : windingWorld.tree.entry? (["a"] ++ ["l"]) = some (.link ".") := rfl
  have free : windingWorld.tree.entry? (["a"] ++ [".git"]) = none := rfl
  have arrives : Arrives windingWorld.tree [] windingRoot 20 ["a"] :=
    arrives_windingRoot rfl link
  have plain : '\x00' ∉ windingRoot.toList := by decide
  have git := (arrives.lookup_inside isName_git plain false).resolve_left fun long =>
    absurd long.1 (by decide)
  have head := (arrives.lookup_inside isName_head plain true).resolve_left fun long =>
    absurd long.1 (by decide)
  refine ⟨?_, "HEAD", by simp, .tooManyLinks, by simp, ?_⟩
  · rw [git, isName_git.isStep.walk_last_free free]
    rfl
  · rw [head, walk_head, winding, walk_replicate_of_lt isName_l.isStep link (by decide)]
    rfl

/-- A repository without a working tree is made, but cannot be opened by the path that it was made
by. -/
theorem init_overlooked_winding :
    ∃ after, Manager.inProcess.init {} windingRoot "https://example.com/x.git" true windingStage =
        (.ok (), after) ∧
      openCheckout after.world.tree after.world.current windingRoot =
        .error (.notARepository windingRoot) := by
  have arrives : Arrives windingStage.world.tree [] windingRoot 20 ["a"] :=
    arrives_windingRoot rfl rfl
  have located := arrives.locate_eq isUsable_windingRoot
  have directory := (World.makeDirectories_eq_self_iff windingStage.world windingRoot).mpr
    (.inr (isDirectory_of_located located))
  have path : newGitDirectory windingRoot true = .ok windingRoot := by decide
  have made := (Makes.there path located).makeRepository gitDirectoryIn_winding
  have registered : addOrigin (windingWorld.storeAt ["a"]) "https://example.com/x.git" =
      .ok { Store.fresh with remotes := [("origin", "https://example.com/x.git")] } := rfl
  have course := InitCourse.completed (rfl : (Caller.mk false none).cancelled = false) directory
    made registered
  have rooted : Files.absolute "/" windingRoot = .ok windingRoot := by decide
  exact ⟨{ windingStage with world := World.setStore _ _ _ },
    inProcess_init_iff.mpr ⟨course.eq_init, rfl⟩,
    openCheckoutBy_eq_notARepository_iff.mpr ⟨rooted, overlooked_winding.lacksMetadata⟩⟩

end GitHistory
