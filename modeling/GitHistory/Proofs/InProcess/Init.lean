import GitHistory.Proofs.InProcess.Metadata

/-! Making a repository in-process: directories, metadata and a remote one after the other, and
what was made stays when a later step fails. Nothing is made just where all of it is there. -/
namespace GitHistory

namespace World

open FileTree (Adds)

variable {world before middle after : World} {route : Route}

/-- One world is another with entries added where nothing stood. -/
def Grows (before after : World) : Prop :=
  ∃ tree, Adds (fun _ => True) before.tree tree ∧ after = before.setTree tree

theorem Grows.trans (first : before.Grows middle) (second : middle.Grows after) :
    before.Grows after := by
  obtain ⟨_, adds, rfl⟩ := first
  obtain ⟨_, more, rfl⟩ := second
  exact ⟨_, adds.trans more, rfl⟩

theorem Grows.antisymm (grows : before.Grows after) (back : after.Grows before) :
    after = before := by
  obtain ⟨tree, adds, rfl⟩ := grows
  obtain ⟨again, more, same⟩ := back
  obtain rfl : before.tree = again := congrArg (fun world : World => world.tree) same
  obtain rfl : tree = before.tree := adds.antisymm more
  rfl

theorem Grows.kept (grows : before.Grows after) (route : Route) (entry : Entry)
    (there : before.tree.entry? route = some entry) : after.tree.entry? route = some entry := by
  obtain ⟨_, adds, rfl⟩ := grows
  exact adds.kept route entry there

theorem Grows.current_eq (grows : before.Grows after) : after.current = before.current := by
  obtain ⟨_, -, rfl⟩ := grows
  rfl

theorem makeDirectories_grows (world : World) (path : String) :
    world.Grows (world.makeDirectories path).2 :=
  ⟨_, (FileTree.makeDirectories_adds _ _ _).mono fun _ _ => trivial, rfl⟩

theorem makeDirectories_eq_self_iff (world : World) (path : String) :
    world.makeDirectories path = (.ok (), world) ↔
      path.isEmpty = true ∨ world.tree.isDirectory world.current path = true := by
  rw [← FileTree.makeDirectories_eq_self_iff, makeDirectories]
  constructor
  · intro same
    obtain ⟨made, kept⟩ := Prod.mk.inj same
    exact Prod.ext made (congrArg (fun world : World => world.tree) kept)
  · intro same
    rw [same]
    rfl

/-- All that metadata consists of is under a route. -/
def HasLayout (world : World) (route : Route) : Prop :=
  ∀ item ∈ layout, (world.tree.entry? (route ++ [item.1])).isSome

theorem fill_adds (route : Route) (tree : FileTree) (item : String × Entry) :
    Adds (fun _ => True) tree (fill route tree item) := by
  rw [fill]
  split
  · exact .none
  · rename_i free
    exact .more .none (Option.not_isSome_iff_eq_none.mp free) trivial

theorem fillAll_adds (route : Route) (tree : FileTree) (items : List (String × Entry)) :
    Adds (fun _ => True) tree (items.foldl (fill route) tree) := by
  induction items generalizing tree with
  | nil => exact .none
  | cons item rest ih => exact (fill_adds route tree item).trans (ih _)

theorem fillGitDirectory_grows (world : World) (route : Route) :
    world.Grows (world.fillGitDirectory route) :=
  ⟨_, fillAll_adds route world.tree layout, rfl⟩

theorem fill_stands (route : Route) (tree : FileTree) (item : String × Entry) :
    (FileTree.entry? (fill route tree item) (route ++ [item.1])).isSome := by
  rw [fill]
  split
  · assumption
  · rw [FileTree.stands_insert_same (by simp)]
    rfl

theorem fillAll_stands (route : Route) (tree : FileTree) (items : List (String × Entry)) :
    ∀ item ∈ items,
      (FileTree.entry? (items.foldl (fill route) tree) (route ++ [item.1])).isSome := by
  induction items generalizing tree with
  | nil => simp
  | cons first rest ih =>
    intro item member
    rcases List.mem_cons.mp member with rfl | later
    · rcases (fillAll_adds route (fill route tree item) rest).stands (route ++ [item.1]) with
        same | ⟨free, _⟩
      · rw [List.foldl_cons, same]
        exact fill_stands route tree item
      · have stands := fill_stands route tree item
        rw [free] at stands
        cases stands
    · exact ih _ item later

theorem hasLayout_fillGitDirectory (world : World) (route : Route) :
    (world.fillGitDirectory route).HasLayout route :=
  fillAll_stands route world.tree layout

theorem HasLayout.fillGitDirectory_eq (complete : world.HasLayout route) :
    world.fillGitDirectory route = world := by
  have kept : ∀ items : List (String × Entry), (∀ item ∈ items, item ∈ layout) →
      items.foldl (fill route) world.tree = world.tree := by
    intro items among
    induction items with
    | nil => rfl
    | cons item rest ih =>
      rw [List.foldl_cons, fill, if_pos (complete item (among item List.mem_cons_self))]
      exact ih fun other member => among other (List.mem_cons_of_mem item member)
  rw [fillGitDirectory, kept layout fun _ member => member]
  rfl

end World

namespace InProcess

open World FileTree

variable {world after : World} {caller : Caller} {root url reason : String} {bare : Bool}
variable {metadata route : Route} {result : Except GitError Unit}

/-- A repository is at a path already, with all that its metadata consists of, and opening it comes
to a route. -/
structure HasRepository (world : World) (root : String) (bare : Bool) (route : Route) : Prop where
  directory : world.tree.isDirectory world.current root = true
  place : ∃ path metadata, newGitDirectory root bare = .ok path ∧
    world.tree.locate world.current true path = .ok (.present metadata .directory) ∧
    world.HasLayout metadata ∧ gitDirectoryIn world metadata = .ok route

/-- How making the metadata of a repository goes, unless it fails. -/
inductive Makes (world : World) (root : String) (bare : Bool) : Route → World → Prop where
  | there {path : String} {route : Route} (named : newGitDirectory root bare = .ok path)
      (found : world.tree.locate world.current true path = .ok (.present route .directory)) :
      Makes world root bare route (world.fillGitDirectory route)
  | inserted {path name : String} {place : Route} (named : newGitDirectory root bare = .ok path)
      (free : world.tree.locate world.current true path = .ok (.free place name)) :
      Makes world root bare (place ++ [name])
        ((world.setTree (world.tree.insert (place ++ [name]) .directory)).fillGitDirectory
          (place ++ [name]))

theorem makeMetadata_ok (made : makeMetadata world root bare = (.ok metadata, after)) :
    Makes world root bare metadata after := by
  rw [makeMetadata] at made
  split at made
  · cases made
  · rename_i named
    split at made
    · rename_i found
      cases made
      exact .there named found
    · rename_i free
      cases made
      exact .inserted named free
    · cases made

theorem Makes.makeMetadata (makes : Makes world root bare metadata after) :
    makeMetadata world root bare = (.ok metadata, after) := by
  cases makes with
  | there named found =>
    rw [InProcess.makeMetadata, named]
    simp only [found]
  | inserted named free =>
    rw [InProcess.makeMetadata, named]
    simp only [free]

theorem Makes.grows (makes : Makes world root bare metadata after) : world.Grows after := by
  cases makes with
  | there => exact fillGitDirectory_grows _ _
  | inserted _ free =>
    refine Grows.trans ⟨_, ?_, rfl⟩ (fillGitDirectory_grows _ _)
    exact .more .none (FileTree.locate_free free) trivial

theorem Makes.hasLayout (makes : Makes world root bare metadata after) :
    after.HasLayout metadata := by
  cases makes <;> exact hasLayout_fillGitDirectory _ _

/-- A repository is made by its metadata, which is then opened. -/
theorem makeRepository_ok (made : makeRepository world root bare = (.ok route, after)) :
    ∃ metadata, Makes world root bare metadata after ∧
      gitDirectoryIn after metadata = .ok route := by
  rw [makeRepository] at made
  split at made
  · cases made
  · rename_i metadata middle placed
    split at made
    · rename_i opened
      cases made
      exact ⟨metadata, makeMetadata_ok placed, opened⟩
    · cases made

theorem Makes.makeRepository (makes : Makes world root bare metadata after)
    (opened : gitDirectoryIn after metadata = .ok route) :
    makeRepository world root bare = (.ok route, after) := by
  rw [InProcess.makeRepository, makes.makeMetadata]
  simp only [opened]

theorem newGitDirectory_cases {path : String} (named : newGitDirectory root bare = .ok path) :
    root ≠ "" ∧ (path = root ∧ (bare = true ∨ namesMetadata root = true) ∨
      path = Files.inside root ".git" ∧ bare = false ∧ namesMetadata root = false) := by
  rw [newGitDirectory] at named
  split at named
  · cases named
  · rename_i some
    have path := (Except.ok.inj named).symm
    refine ⟨by simpa using some, ?_⟩
    split at path
    · rename_i itself
      exact .inl ⟨path, by simpa using itself⟩
    · rename_i within
      exact .inr ⟨path, by simpa using within⟩

/-- Where metadata was put, a path leads to it. -/
theorem Makes.arrives (makes : Makes world root bare metadata after) :
    ∃ path left, newGitDirectory root bare = .ok path ∧ IsUsable path ∧
      Arrives after.tree after.current path left metadata := by
  cases makes with
  | there named found =>
    obtain ⟨left, arrives⟩ := exists_arrives found
    exact ⟨_, left, named, isUsable_of_locate found,
      arrives.mono (fillGitDirectory_grows _ _).kept⟩
  | inserted named free =>
    obtain ⟨left, leads⟩ := exists_leads_insert (walk_of_locate free)
    have usable := isUsable_of_locate free
    refine ⟨_, left, named, usable, ?_⟩
    exact Arrives.mono (fillGitDirectory_grows _ _).kept ⟨by simpa using usable.named, leads⟩

/-- Where a repository was made there is one. -/
theorem Makes.hasRepository (makes : Makes world root bare metadata after)
    (opened : gitDirectoryIn after metadata = .ok route) :
    HasRepository after root bare route := by
  obtain ⟨path, left, named, usable, arrives⟩ := makes.arrives
  have located := arrives.locate_eq usable
  refine ⟨?_, path, metadata, named, located, makes.hasLayout, opened⟩
  obtain ⟨some, ⟨rfl, -⟩ | ⟨rfl, -⟩⟩ := newGitDirectory_cases named
  · exact isDirectory_of_located located
  · obtain ⟨left, place, around, -⟩ := exists_arrives_of_inside isName_git some located
    exact isDirectory_of_located (around.locate_eq (isUsable_of_inside isName_git some usable))

theorem HasRepository.makeRepository (has : HasRepository world root bare route) :
    makeRepository world root bare = (.ok route, world) := by
  obtain ⟨_, path, metadata, named, found, complete, opened⟩ := has
  have makes := Makes.there named found
  rw [complete.fillGitDirectory_eq] at makes
  exact makes.makeRepository opened

/-! Registering the remote repository. -/

/-- What keeps a text that looks like an option from being registered as a remote repository. -/
def Unregistrable (store : Store) (url : String) : Prop :=
  '\x00' ∈ url.toList ∨ (store.remotes.lookup "origin").isSome

theorem addOrigin_cases (store : Store) (named : url.isEmpty = false) :
    Unregistrable store url ∧ (∃ reason, addOrigin store url = .error reason) ∨
      ¬Unregistrable store url ∧
        addOrigin store url = .ok { store with remotes := ("origin", url) :: store.remotes } := by
  rw [addOrigin, Unregistrable, named]
  by_cases nul : '\x00' ∈ url.toList
  · exact .inl ⟨.inl nul, _, by simp [nul]; rfl⟩
  · by_cases registered : (store.remotes.lookup "origin").isSome
    · exact .inl ⟨.inr registered, _, by simp [nul, registered]; rfl⟩
    · exact .inr (by simp [nul, registered])

theorem addOrigin_ok {store result : Store} (registered : addOrigin store url = .ok result) :
    result.remotes.lookup "origin" = some url := by
  rw [addOrigin] at registered
  split_ifs at registered
  cases registered
  exact List.lookup_cons_self

theorem storeAt_setStore (world : World) (route : Route) (store : Store) :
    (world.setStore route store).storeAt route = store := by
  rw [World.setStore, storeAt, List.lookup_cons_self]
  rfl

/-! The whole of it. -/

/-- How it goes: what it ends with and what is left. -/
inductive InitCourse (world : World) (caller : Caller) (root url : String) (bare : Bool) :
    Except GitError Unit → World → Prop where
  | cancelled (stopped : caller.cancelled = true) :
      InitCourse world caller root url bare (.error .cancelled) world
  | undirected {source : IoError} {after : World} (live : caller.cancelled = false)
      (unmade : world.makeDirectories root = (.error source, after)) :
      InitCourse world caller root url bare (.error (.io root source)) after
  | uninitialized {reason : String} {middle after : World} (live : caller.cancelled = false)
      (directory : world.makeDirectories root = (.ok (), middle))
      (failed : makeRepository middle root bare = (.error reason, after)) :
      InitCourse world caller root url bare (.error (.init root reason)) after
  | unregistered {reason : String} {route : Route} {middle after : World}
      (live : caller.cancelled = false)
      (directory : world.makeDirectories root = (.ok (), middle))
      (made : makeRepository middle root bare = (.ok route, after))
      (failed : addOrigin (after.storeAt route) url = .error reason) :
      InitCourse world caller root url bare (.error (.remote url reason)) after
  | completed {route : Route} {middle after : World} {store : Store}
      (live : caller.cancelled = false)
      (directory : world.makeDirectories root = (.ok (), middle))
      (made : makeRepository middle root bare = (.ok route, after))
      (registered : addOrigin (after.storeAt route) url = .ok store) :
      InitCourse world caller root url bare (.ok ()) (after.setStore route store)

theorem InitCourse.eq_init (course : InitCourse world caller root url bare result after) :
    init world caller root url bare = (result, after) := by
  rw [init]
  cases course with
  | cancelled stopped => rw [if_pos stopped]
  | undirected live unmade =>
    rw [live, unmade]
    rfl
  | uninitialized live directory failed =>
    rw [live, directory]
    simp only [failed]
    rfl
  | unregistered live directory made failed =>
    rw [live, directory]
    simp only [made, failed]
    rfl
  | completed live directory made registered =>
    rw [live, directory]
    simp only [made, registered]
    rfl

theorem init_course (world : World) (caller : Caller) (root url : String) (bare : Bool) :
    InitCourse world caller root url bare (init world caller root url bare).1
      (init world caller root url bare).2 := by
  rw [init]
  split
  · exact .cancelled ‹_›
  · have live : caller.cancelled = false := Bool.eq_false_iff.mpr ‹_›
    split
    · exact .undirected live ‹_›
    · split
      · exact .uninitialized live ‹_› ‹_›
      · split
        · exact .unregistered live ‹_› ‹_› ‹_›
        · exact .completed live ‹_› ‹_› ‹_›

/-- It fails for the remote repository and leaves everything as it was just where there is a
repository already, and the remote one cannot be registered in it. -/
theorem init_untouched_iff (named : url.isEmpty = false) :
    (∃ reason, init world caller root url bare = (.error (.remote url reason), world)) ↔
      caller.cancelled = false ∧
        ∃ route, HasRepository world root bare route ∧ Unregistrable (world.storeAt route) url := by
  constructor
  · rintro ⟨reason, ended⟩
    have course := init_course world caller root url bare
    rw [ended] at course
    cases course with
    | @unregistered _ route middle _ live directory made failed =>
      obtain ⟨metadata, makes, opened⟩ := makeRepository_ok made
      have grows := World.makeDirectories_grows world root
      rw [directory] at grows
      obtain rfl := grows.antisymm makes.grows
      refine ⟨live, route, makes.hasRepository opened, ?_⟩
      rcases addOrigin_cases (middle.storeAt route) named with ⟨refused, _⟩ | ⟨_, registered⟩
      · exact refused
      · cases failed.symm.trans registered
  · rintro ⟨live, route, has, refused⟩
    have directory := (World.makeDirectories_eq_self_iff world root).mpr (.inr has.directory)
    rcases addOrigin_cases (world.storeAt route) named with ⟨_, reason, failed⟩ | ⟨free, _⟩
    · exact ⟨reason, (InitCourse.unregistered live directory has.makeRepository failed).eq_init⟩
    · exact absurd refused free

/-- When it succeeds there is a repository in which the remote one is registered. -/
theorem init_ok (made : init world caller root url bare = (.ok (), after)) :
    ∃ route, after.HasMetadata route ∧
      (after.storeAt route).remotes.lookup "origin" = some url := by
  have course := init_course world caller root url bare
  rw [made] at course
  generalize final : after = left at course
  cases course with
  | @completed route _ middle store _ _ made registered =>
    obtain ⟨metadata, -, opened⟩ := makeRepository_ok made
    refine ⟨route, hasMetadata_of_gitDirectoryIn opened, ?_⟩
    change ((middle.setStore route store).storeAt route).remotes.lookup "origin" = some url
    rw [storeAt_setStore]
    exact addOrigin_ok registered

end InProcess

end GitHistory
