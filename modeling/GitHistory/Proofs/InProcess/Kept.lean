import GitHistory.Proofs.InProcess.Init

/-! What making a repository in-process leaves as it was, however it ends: entries of the tree stay
where they are, and repositories keep their objects, their names and their remotes. -/
namespace GitHistory

namespace Store

variable {before middle after store : Store}

/-- Nothing that a repository holds is lost. -/
structure Keeps (before after : Store) : Prop where
  objects : after.objects = before.objects
  references : after.references = before.references
  head : after.head = before.head
  remotes : ∀ name url, before.remotes.lookup name = some url →
    after.remotes.lookup name = some url

theorem Keeps.refl (store : Store) : store.Keeps store := ⟨rfl, rfl, rfl, fun _ _ found => found⟩

theorem Keeps.trans (first : before.Keeps middle) (second : middle.Keeps after) :
    before.Keeps after :=
  ⟨second.objects.trans first.objects, second.references.trans first.references,
    second.head.trans first.head,
    fun name url found => second.remotes name url (first.remotes name url found)⟩

/-- A remote is registered only under a name that was free. -/
theorem keeps_addOrigin {url : String} (registered : InProcess.addOrigin before url = .ok after) :
    before.Keeps after := by
  rw [InProcess.addOrigin] at registered
  split_ifs at registered with _ _ taken
  cases registered
  refine ⟨rfl, rfl, rfl, ?_⟩
  intro name url found
  rw [List.lookup_cons]
  by_cases same : name = "origin"
  · rw [same] at found
    rw [found] at taken
    exact absurd rfl taken
  · rw [beq_false_of_ne same]
    exact found

end Store

namespace World

variable {before middle after world : World} {route : Route}

/-- Nothing that is on a machine or in its repositories is lost. -/
structure Keeps (before after : World) : Prop where
  tree : FileTree.Adds (fun _ => True) before.tree after.tree
  current : after.current = before.current
  environment : after.environment = before.environment
  elsewhere : after.elsewhere = before.elsewhere
  stores : ∀ route, (before.storeAt route).Keeps (after.storeAt route)

theorem Keeps.refl (world : World) : world.Keeps world :=
  ⟨.none, rfl, rfl, rfl, fun _ => .refl _⟩

theorem Keeps.trans (first : before.Keeps middle) (second : middle.Keeps after) :
    before.Keeps after :=
  ⟨first.tree.trans second.tree, second.current.trans first.current,
    second.environment.trans first.environment, second.elsewhere.trans first.elsewhere,
    fun route => (first.stores route).trans (second.stores route)⟩

/-- What stands somewhere stays there. -/
theorem Keeps.entry?_eq (keeps : before.Keeps after) {entry : Entry}
    (stands : before.tree.entry? route = some entry) : after.tree.entry? route = some entry :=
  keeps.tree.kept route entry stands

theorem Grows.refl (world : World) : world.Grows world := ⟨world.tree, .none, rfl⟩

theorem Grows.keeps (grows : before.Grows after) : before.Keeps after := by
  obtain ⟨tree, adds, rfl⟩ := grows
  exact ⟨adds, rfl, rfl, rfl, fun _ => .refl _⟩

theorem storeAt_setStore_other {other : Route} (different : other ≠ route) (store : Store) :
    (world.setStore route store).storeAt other = world.storeAt other := by
  rw [setStore, storeAt, List.lookup_cons, beq_false_of_ne different]
  dsimp only
  rw [FileTree.lookup_filter_ne different]
  rfl

theorem keeps_setStore {store : Store} (keeps : (world.storeAt route).Keeps store) :
    world.Keeps (world.setStore route store) := by
  refine ⟨.none, rfl, rfl, rfl, ?_⟩
  intro other
  by_cases same : other = route
  · rw [same, InProcess.storeAt_setStore]
    exact keeps
  · rw [storeAt_setStore_other same]
    exact .refl _

end World

namespace InProcess

open World

theorem makeMetadata_grows (world : World) (root : String) (bare : Bool) :
    world.Grows (makeMetadata world root bare).2 := by
  cases made : makeMetadata world root bare with
  | mk result after =>
    cases result with
    | ok metadata => exact (makeMetadata_ok made).grows
    | error reason =>
      have unchanged : after = world := by
        rw [makeMetadata] at made
        split at made
        · exact (Prod.mk.inj made).2.symm
        · split at made
          · cases made
          · cases made
          · exact (Prod.mk.inj made).2.symm
      exact unchanged ▸ .refl world

theorem makeRepository_grows (world : World) (root : String) (bare : Bool) :
    world.Grows (makeRepository world root bare).2 := by
  have grows := makeMetadata_grows world root bare
  rw [makeRepository]
  split
  · rename_i placed
    rw [placed] at grows
    exact grows
  · rename_i placed
    rw [placed] at grows
    split <;> exact grows

/-- However making a repository ends, nothing is lost. -/
theorem keeps_init (world : World) (caller : Caller) (root url : String) (bare : Bool) :
    world.Keeps (init world caller root url bare).2 := by
  have directories := makeDirectories_grows world root
  have repository {middle after : World} {result : Except String Route}
      (made : makeRepository middle root bare = (result, after)) : middle.Keeps after :=
    (congrArg Prod.snd made ▸ makeRepository_grows middle root bare).keeps
  have course := init_course world caller root url bare
  generalize (init world caller root url bare).1 = result at course
  generalize (init world caller root url bare).2 = left at course
  cases course with
  | cancelled => exact .refl world
  | undirected _ unmade =>
    rw [unmade] at directories
    exact directories.keeps
  | uninitialized _ directory failed =>
    rw [directory] at directories
    exact directories.keeps.trans (repository failed)
  | unregistered _ directory made _ =>
    rw [directory] at directories
    exact directories.keeps.trans (repository made)
  | completed _ directory made registered =>
    rw [directory] at directories
    have kept := keeps_setStore (Store.keeps_addOrigin registered)
    exact (directories.keeps.trans (repository made)).trans kept

end InProcess

end GitHistory
