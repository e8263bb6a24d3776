import GitHistory.Proofs.Checkout.Overlooked
import GitHistory.Proofs.InProcess.Init

/-! What is left of making a repository, whether or not its remote one could be registered: a
repository that its path opens as a checkout, unless it is overlooked there. Making it once more
finds it, and changes nothing once it has an `origin`. -/
namespace GitHistory.InProcess

open FileTree World

variable {world after : World} {caller : Caller} {root full url : String} {bare : Bool}
variable {route : Route} {store : Store} {result : Except GitError Unit}

theorem HasRepository.setStore (has : HasRepository world root bare route) (store : Store) :
    HasRepository (world.setStore route store) root bare route :=
  ⟨has.directory, has.place⟩

/-- The path of a repository leads to where it is: in the `.git` there, or right there. -/
theorem HasRepository.arrives (has : HasRepository world root bare route) :
    ∃ left place, Arrives world.tree world.current root left place ∧
      ((world.tree.entry? (place ++ [".git"])).isSome ∨
        (bare = true ∨ namesMetadata root = true) ∧ gitDirectoryIn world place = .ok route) := by
  obtain ⟨_, path, metadata, named, located, -, opened⟩ := has
  obtain ⟨some, ⟨rfl, itself⟩ | ⟨rfl, -⟩⟩ := newGitDirectory_cases named
  · obtain ⟨left, arrives⟩ := exists_arrives located
    exact ⟨left, metadata, arrives, .inr ⟨itself, opened⟩⟩
  · obtain ⟨left, place, arrives, walked⟩ := exists_arrives_of_inside isName_git some located
    rcases stands_of_walk isName_git.isStep walked with free | stands
    · cases free
    · exact ⟨left, place, arrives, .inl stands⟩

/-- With nothing at `.git` a repository is right in the directory. -/
theorem HasRepository.furnished_of_missing (has : HasRepository world root bare route)
    (start : world.tree.IsPlace world.current)
    (rooted : Files.absolute world.current.text root = .ok full)
    (missing : world.tree.lookup world.current false (Files.inside full ".git") =
      .error .notFound) :
    (bare = true ∨ namesMetadata root = true) ∧
      ∃ left place, Arrives world.tree world.current full left place ∧
        Furnished world.tree place := by
  obtain ⟨left, place, arrives, kind⟩ := has.arrives
  have whole := arrives.absolute start rooted world.current
  have free := (whole.free_of_missing isName_git missing).2
  rcases kind with stands | ⟨itself, opened⟩
  · rw [free] at stands
    cases stands
  · have isPlace := arrives.isPlace start
    have metadata := hasMetadata_of_free isPlace free opened
    exact ⟨itself, left, place, whole, furnished_of_hasMetadata isPlace metadata⟩

theorem HasRepository.lacksMetadata_iff (has : HasRepository world root bare route)
    (start : world.tree.IsPlace world.current)
    (rooted : Files.absolute world.current.text root = .ok full) :
    LacksMetadata (world.tree.lookup world.current) full ↔
      Overlooked (world.tree.lookup world.current) full := by
  refine ⟨fun lacks => ?_, Overlooked.lacksMetadata⟩
  obtain ⟨-, left, place, arrives, furnished⟩ :=
    has.furnished_of_missing start rooted lacks.missing
  obtain ⟨_, _, _, head⟩ := furnished.head
  obtain ⟨_, objects⟩ := furnished.objects
  exact arrives.overlooked_of_lacks head objects lacks

/-- How a repository is opened as a checkout by its path. It is unless it is overlooked; then it is
right in the directory, and the path is too long or there is a link in it. -/
structure Openable (world : World) (root : String) (bare : Bool) (full : String) : Prop where
  rooted : Files.absolute world.current.text root = .ok full
  opened : openCheckout world.tree world.current root = .ok ⟨full⟩ ↔
    ¬Overlooked (world.tree.lookup world.current) full
  refused : openCheckout world.tree world.current root = .error (.notARepository full) ↔
    Overlooked (world.tree.lookup world.current) full
  within : Overlooked (world.tree.lookup world.current) full →
    bare = true ∨ namesMetadata root = true
  cause : Overlooked (world.tree.lookup world.current) full →
    ∃ name ∈ ["HEAD", "objects"], pathLimit ≤ Text.utf8Size (Files.inside full name).toList ∨
      world.tree.lookup world.current false (Files.inside full name) = .ok .link

theorem HasRepository.openable (has : HasRepository world root bare route)
    (start : world.tree.IsPlace world.current) : ∃ full, Openable world root bare full := by
  obtain ⟨left, place, arrives, -⟩ := has.arrives
  obtain ⟨full, rooted⟩ := Files.exists_absolute world.current.text arrives.named
  have lacks_iff := has.lacksMetadata_iff start rooted
  refine ⟨full, rooted, ?opened, ?refused, ?within, ?cause⟩
  case opened =>
    rw [← lacks_iff, openCheckout, openCheckoutBy_eq_ok_iff]
    exact and_iff_right rooted
  case refused =>
    rw [← lacks_iff, openCheckout, openCheckoutBy_eq_notARepository_iff]
    exact and_iff_right rooted
  case within =>
    exact fun overlooked => (has.furnished_of_missing start rooted overlooked.missing).1
  case cause =>
    intro overlooked
    obtain ⟨-, _, _, arrives, -⟩ := has.furnished_of_missing start rooted overlooked.missing
    exact arrives.cause_of_overlooked overlooked

/-- Opening the metadata of a repository comes to its contents. -/
theorem HasRepository.openStore (has : HasRepository world root bare route) :
    ∃ path, newGitDirectory root bare = .ok path ∧
      openStore world path = .ok (world.storeAt route) := by
  obtain ⟨_, path, metadata, named, located, -, opened⟩ := has
  exact ⟨path, named, openStore_of_located located opened⟩

theorem addOrigin_registered (registered : (store.remotes.lookup "origin").isSome) (url : String) :
    ∃ reason, addOrigin store url = .error reason := by
  rw [addOrigin]
  split_ifs <;> exact ⟨_, rfl⟩

/-- Where a repository has an `origin` already, making it once more fails for that and changes
nothing. -/
theorem HasRepository.init_again (has : HasRepository world root bare route)
    (registered : ((world.storeAt route).remotes.lookup "origin").isSome)
    (live : caller.cancelled = false) (url : String) :
    ∃ reason, init world caller root url bare = (.error (.remote url reason), world) := by
  obtain ⟨reason, failed⟩ := addOrigin_registered registered url
  have directory := (World.makeDirectories_eq_self_iff world root).mpr (.inr has.directory)
  exact ⟨reason, (InitCourse.unregistered live directory has.makeRepository failed).eq_init⟩

/-- What there is once a repository was made, also when its remote one could not be registered. -/
theorem hasRepository_of_init (start : world.tree.IsPlace world.current)
    (ended : init world caller root url bare = (result, after))
    (remote : ∀ error, result = .error error → error.kind = .remote) :
    after.current = world.current ∧ after.tree.IsPlace after.current ∧
      ∃ route, HasRepository after root bare route ∧
        (result = .ok () → (after.storeAt route).remotes.lookup "origin" = some url) := by
  have course := init_course world caller root url bare
  rw [ended] at course
  have inside : ∀ {left : World}, world.Grows left →
      left.current = world.current ∧ left.tree.IsPlace left.current := by
    intro left grows
    refine ⟨grows.current_eq, ?_⟩
    rw [grows.current_eq]
    exact start.mono grows.kept
  have grows := World.makeDirectories_grows world root
  cases course with
  | cancelled | undirected | uninitialized => cases remote _ rfl
  | unregistered live directory made failed =>
    obtain ⟨metadata, makes, opened⟩ := makeRepository_ok made
    rw [directory] at grows
    obtain ⟨same, isPlace⟩ := inside (grows.trans makes.grows)
    exact ⟨same, isPlace, _, makes.hasRepository opened, nofun⟩
  | @completed route _ left store live directory made registered =>
    obtain ⟨metadata, makes, opened⟩ := makeRepository_ok made
    rw [directory] at grows
    obtain ⟨same, isPlace⟩ := inside (grows.trans makes.grows)
    have origin : ((left.setStore route store).storeAt route).remotes.lookup "origin" =
        some url := by
      rw [storeAt_setStore]
      exact addOrigin_ok registered
    exact ⟨same, isPlace, route, (makes.hasRepository opened).setStore store, fun _ => origin⟩

end GitHistory.InProcess
