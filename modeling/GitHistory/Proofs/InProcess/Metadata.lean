import GitHistory.InProcess.Operations
import GitHistory.Proofs.Files.Places

/-! What is opened as a repository has metadata in it. In a directory without `.git` that is the
directory itself. -/
namespace GitHistory

/-- The metadata of a repository is under a route. -/
def World.HasMetadata (world : World) (route : Route) : Prop :=
  world.isGitDirectory route = true

namespace InProcess

open FileTree

variable {world : World} {place route : Route}

theorem hasMetadata_of_linkedDirectory {content : String}
    (linked : linkedDirectory world place content = .ok route) : world.HasMetadata route := by
  rw [linkedDirectory] at linked
  split at linked
  · cases linked
  · simp only [bind, Except.bind] at linked
    split at linked
    · cases linked
    · split at linked
      · cases linked
        assumption
      · cases linked

theorem hasMetadata_of_metadataAt? (found : metadataAt? world place = .ok (some route)) :
    world.HasMetadata route := by
  rw [metadataAt?] at found
  split at found
  · split at found
    · cases found
      assumption
    · cases found
  · split at found
    · simp only [Functor.map, Except.map] at found
      split at found
      · cases found
      · rename_i linked
        cases found
        exact hasMetadata_of_linkedDirectory linked
    · cases found
  · cases found

theorem gitDirectoryIn_eq (world : World) (place : Route) :
    gitDirectoryIn world place =
      match metadataAt? world (place ++ [".git"]) with
      | .error fault => .error fault
      | .ok (some found) => .ok found
      | .ok none =>
        match metadataAt? world place with
        | .error fault => .error fault
        | .ok (some found) => .ok found
        | .ok none => .error .missing := by
  rw [gitDirectoryIn]
  rcases metadataAt? world (place ++ [".git"]) with fault | _ | found
  · rfl
  · rcases metadataAt? world place with fault | _ | found <;> rfl
  · rfl

theorem gitDirectoryIn_cases (opened : gitDirectoryIn world place = .ok route) :
    metadataAt? world (place ++ [".git"]) = .ok (some route) ∨
      metadataAt? world (place ++ [".git"]) = .ok none ∧
        metadataAt? world place = .ok (some route) := by
  rw [gitDirectoryIn_eq] at opened
  split at opened
  · cases opened
  · rename_i found inside
    cases opened
    exact .inl inside
  · rename_i inside
    split at opened
    · cases opened
    · rename_i found outside
      cases opened
      exact .inr ⟨inside, outside⟩
    · cases opened

theorem hasMetadata_of_gitDirectoryIn (opened : gitDirectoryIn world place = .ok route) :
    world.HasMetadata route := by
  rcases gitDirectoryIn_cases opened with inside | ⟨-, outside⟩
  · exact hasMetadata_of_metadataAt? inside
  · exact hasMetadata_of_metadataAt? outside

theorem metadataAt?_free (isPlace : world.tree.IsPlace place)
    (free : world.tree.entry? (place ++ [".git"]) = none) :
    metadataAt? world (place ++ [".git"]) = .ok none := by
  have nowhere : ∀ found, world.tree.find [] true (place ++ [".git"]).text ≠ .ok found := by
    rintro ⟨route, entry⟩ found
    have walked := isPlace.walk_name isName_git (find_eq_ok_iff.mp found)
    rw [isName_git.isStep.walk_last_free free] at walked
    cases walked
  rw [metadataAt?]
  split
  · rename_i found
    exact absurd found (nowhere _)
  · rename_i found
    exact absurd found (nowhere _)
  · rfl

theorem metadataAt?_place (isPlace : world.tree.IsPlace place)
    (found : metadataAt? world place = .ok (some route)) : route = place := by
  rw [metadataAt?] at found
  split at found
  · rename_i other led
    have led := find_eq_ok_iff.mp led
    rw [(isPlace.arrives []).locate_eq (isUsable_of_locate led)] at led
    cases led
    split at found
    · cases found
      rfl
    · cases found
  · rename_i led
    have led := find_eq_ok_iff.mp led
    rw [(isPlace.arrives []).locate_eq (isUsable_of_locate led)] at led
    cases led
  · cases found

/-- What is opened in a directory without `.git` is the directory itself. -/
theorem hasMetadata_of_free (isPlace : world.tree.IsPlace place)
    (free : world.tree.entry? (place ++ [".git"]) = none)
    (opened : gitDirectoryIn world place = .ok route) : world.HasMetadata place := by
  rcases gitDirectoryIn_cases opened with inside | ⟨-, outside⟩
  · cases (metadataAt?_free isPlace free).symm.trans inside
  · have itself := metadataAt?_place isPlace outside
    exact itself ▸ hasMetadata_of_metadataAt? outside

/-- What a directory with metadata in it has to have, as walks from there find it. -/
structure Furnished (tree : FileTree) (place : Route) : Prop where
  head : ∃ route content executable, tree.walk true linkLimit place ["HEAD"] =
    .ok (.present route (.file content executable))
  objects : ∃ route, tree.walk true linkLimit place ["objects"] = .ok (.present route .directory)
  refs : ∃ route, tree.walk true linkLimit place ["refs"] = .ok (.present route .directory)

theorem furnished_of_hasMetadata (isPlace : world.tree.IsPlace place)
    (has : world.HasMetadata place) : Furnished world.tree place := by
  rw [World.HasMetadata, World.isGitDirectory, Bool.and_eq_true, Bool.and_eq_true, isFile_iff,
    isDirectory_iff, isDirectory_iff] at has
  obtain ⟨⟨⟨headRoute, content, executable, head⟩, objectsRoute, objects⟩, refsRoute, refs⟩ := has
  exact ⟨⟨headRoute, content, executable, isPlace.walk_name isName_head head⟩,
    ⟨objectsRoute, isPlace.walk_name isName_objects objects⟩,
    ⟨refsRoute, isPlace.walk_name isName_refs refs⟩⟩

theorem furnished_of_entries {tree : FileTree} {content : String} {executable : Bool}
    (head : tree.entry? (place ++ ["HEAD"]) = some (.file content executable))
    (objects : tree.entry? (place ++ ["objects"]) = some .directory)
    (refs : tree.entry? (place ++ ["refs"]) = some .directory) : Furnished tree place where
  head := ⟨_, _, _, isName_head.isStep.walk_last head (.inr nofun) linkLimit⟩
  objects := ⟨_, isName_objects.isStep.walk_last objects (.inr nofun) linkLimit⟩
  refs := ⟨_, isName_refs.isStep.walk_last refs (.inr nofun) linkLimit⟩

/-- A furnished directory without `.git` is opened itself, if its path leaves room for the names
in it. -/
theorem gitDirectoryIn_of_furnished (isPlace : world.tree.IsPlace place)
    (free : world.tree.entry? (place ++ [".git"]) = none) (furnished : Furnished world.tree place)
    (plain : '\x00' ∉ place.text.toList)
    (short : Text.utf8Size place.text.toList + 8 < pathLimit) :
    gitDirectoryIn world place = .ok place := by
  have arrives := isPlace.arrives []
  have usable : ∀ {name : String}, IsName name → Text.utf8Size name.toList ≤ 7 →
      IsUsable (Files.inside place.text name) := by
    intro name isName fits
    have size := (utf8Size_inside isName arrives.named).2
    exact isUsable_inside isName arrives.named plain (by omega)
  have head := usable isName_head (by decide)
  have objects := usable isName_objects (by decide)
  have refs := usable isName_refs (by decide)
  have itself := arrives.locate_eq (isUsable_of_inside isName_head arrives.named head)
  rw [isPlace.inside_text isName_head.isPart] at head
  rw [isPlace.inside_text isName_objects.isPart] at objects
  rw [isPlace.inside_text isName_refs.isPart] at refs
  have has : world.isGitDirectory place = true := by
    rw [World.isGitDirectory, Bool.and_eq_true, Bool.and_eq_true, isFile_iff, isDirectory_iff,
      isDirectory_iff, isPlace.locate_name isName_head head,
      isPlace.locate_name isName_objects objects, isPlace.locate_name isName_refs refs]
    exact ⟨⟨furnished.head, furnished.objects⟩, furnished.refs⟩
  have found : metadataAt? world place = .ok (some place) := by
    rw [metadataAt?, find_eq_ok_iff.mpr itself]
    simp only [has, if_true]
    rfl
  rw [gitDirectoryIn_eq, metadataAt?_free isPlace free]
  simp only [found]

/-- A text is a path in the tree. -/
theorem openStore_ofText (world : World) (path : String) :
    openStore world path =
      ((gitDirectory world path).map world.storeAt).mapError (openFailure path) := by
  simp only [openStore, RawPath.text?_ofText, RawPath.shown_ofText]

/-- Opening a path that leads to a directory comes to what is opened in there. -/
theorem openStore_of_located {path : String}
    (located : world.tree.locate world.current true path = .ok (.present place .directory))
    (opened : gitDirectoryIn world place = .ok route) :
    openStore world path = .ok (world.storeAt route) := by
  have led : routeOf world world.current path = .ok place := by
    rw [routeOf, find_eq_ok_iff.mpr located]
  have found : gitDirectory world path = .ok route := by
    rw [gitDirectory, led]
    exact opened
  rw [openStore_ofText, found]
  rfl

end InProcess

end GitHistory
