import GitHistory.Proofs.Checkout
import GitHistory.Proofs.Files.Places

/-! A repository is overlooked where nothing stands at `.git` and a lookup of `HEAD` or of `objects`
breaks off, because its path is too long or passes through too many links. Elsewhere a directory
with the bare layout is opened by every path that leads there. -/
namespace GitHistory

/-- The bare layout cannot be made out, though nobody says that it is missing. -/
structure Overlooked (look : Lookup) (root : String) : Prop where
  missing : look false (Files.inside root ".git") = .error .notFound
  brokenOff : ∃ name ∈ ["HEAD", "objects"], ∃ limit ∈ [IoError.nameTooLong, .tooManyLinks],
    look true (Files.inside root name) = .error limit

theorem Overlooked.lacksMetadata {look : Lookup} {root : String}
    (overlooked : Overlooked look root) : LacksMetadata look root where
  missing := overlooked.missing
  notBare := by
    rintro ⟨head, objects⟩
    obtain ⟨name, among, limit, -, brokenOff⟩ := overlooked.brokenOff
    rcases List.mem_pair.mp among with rfl | rfl
    · cases head.symm.trans brokenOff
    · cases objects.symm.trans brokenOff

namespace FileTree

variable {tree : FileTree} {current place route : Route} {follow : Bool} {left : Nat}
variable {path name : String} {entry : Entry}

/-- What is told of where a walk ends. -/
def told : Except IoError Place → Except IoError EntryKind
  | .ok (.present _ entry) => .ok entry.kind
  | .ok (.free ..) => .error .notFound
  | .error error => .error error

theorem lookup_eq (tree : FileTree) (current : Route) (follow : Bool) (path : String) :
    tree.lookup current follow path = told (tree.locate current follow path) := by
  rw [lookup, find]
  rcases tree.locate current follow path with error | place | place <;> rfl

/-- A name inside a path is looked up from where the path leads, unless both are too long. -/
theorem Arrives.lookup_inside (arrives : Arrives tree current path left place)
    (isName : IsName name) (plain : '\x00' ∉ path.toList) (follow : Bool) :
    pathLimit ≤ Text.utf8Size (Files.inside path name).toList ∧
        tree.lookup current follow (Files.inside path name) = .error .nameTooLong ∨
      tree.lookup current follow (Files.inside path name) =
        told (tree.walk follow left place [name]) := by
  rw [lookup_eq]
  by_cases long : pathLimit ≤ Text.utf8Size (Files.inside path name).toList
  · left
    refine ⟨long, ?_⟩
    have nul : ¬(Files.inside path name).toList.contains '\x00' = true := by
      simpa [contains_inside isName arrives.named] using plain
    have some := Files.inside_ne_empty arrives.named isName.isPart
    rw [locate, if_neg nul, if_neg (by simpa using some), if_pos long]
    rfl
  · right
    have usable := isUsable_inside isName arrives.named plain (Nat.lt_of_not_le long)
    rw [arrives.locate_inside isName usable]

/-- Nothing stands where a lookup that follows no link tells so. -/
theorem Arrives.free_of_missing (arrives : Arrives tree current path left place)
    (isName : IsName name)
    (missing : tree.lookup current false (Files.inside path name) = .error .notFound) :
    '\x00' ∉ path.toList ∧ tree.entry? (place ++ [name]) = none := by
  have plain : '\x00' ∉ path.toList := by
    intro nul
    have inside := (contains_inside isName arrives.named).mpr nul
    rw [lookup_eq, locate, if_pos (by simpa using inside)] at missing
    cases missing
  refine ⟨plain, ?_⟩
  rcases arrives.lookup_inside isName plain false with ⟨-, long⟩ | walked
  · cases long.symm.trans missing
  · cases stands : tree.entry? (place ++ [name]) with
    | none => rfl
    | some entry =>
      rw [isName.isStep.walk_last stands (.inl rfl)] at walked
      cases walked.symm.trans missing

/-- What stands under a name is told by a lookup that follows links, or a limit is. -/
theorem Arrives.lookup_of_walk (arrives : Arrives tree current path left place)
    (isName : IsName name) (plain : '\x00' ∉ path.toList)
    (walked : tree.walk true linkLimit place [name] = .ok (.present route entry)) :
    tree.lookup current true (Files.inside path name) = .ok entry.kind ∨
      ∃ limit ∈ [IoError.nameTooLong, .tooManyLinks],
        tree.lookup current true (Files.inside path name) = .error limit := by
  rcases arrives.lookup_inside isName plain true with ⟨-, long⟩ | told
  · exact .inr ⟨_, by simp, long⟩
  · rcases walk_of_le arrives.leads.le with same | short
    · rw [same, walked] at told
      exact .inl told
    · rw [short] at told
      exact .inr ⟨_, by simp, told⟩

/-- Only a path that is too long or a link hides what stands under a name. -/
theorem Arrives.cause_of_limit (arrives : Arrives tree current path left place)
    (isName : IsName name) (plain : '\x00' ∉ path.toList) {limit : IoError}
    (among : limit ∈ [IoError.nameTooLong, .tooManyLinks])
    (broken : tree.lookup current true (Files.inside path name) = .error limit) :
    pathLimit ≤ Text.utf8Size (Files.inside path name).toList ∨
      tree.lookup current false (Files.inside path name) = .ok .link := by
  by_cases long : pathLimit ≤ Text.utf8Size (Files.inside path name).toList
  · exact .inl long
  · right
    have followed := (arrives.lookup_inside isName plain true).resolve_left (long ·.1)
    have kept := (arrives.lookup_inside isName plain false).resolve_left (long ·.1)
    cases stands : tree.entry? (place ++ [name]) with
    | none =>
      rw [isName.isStep.walk_last_free stands] at followed
      obtain rfl := Except.error.inj (broken.symm.trans followed)
      simp at among
    | some entry =>
      rw [isName.isStep.walk_last stands (.inl rfl)] at kept
      cases entry with
      | link target => exact kept
      | directory | file =>
        rw [isName.isStep.walk_last stands (.inr nofun)] at followed
        cases broken.symm.trans followed

/-- A directory with the bare layout is taken for lacking it only by being overlooked. -/
theorem Arrives.overlooked_of_lacks {head objects : Route} {content : String} {executable : Bool}
    (arrives : Arrives tree current path left place)
    (hasHead : tree.walk true linkLimit place ["HEAD"] =
      .ok (.present head (.file content executable)))
    (hasObjects : tree.walk true linkLimit place ["objects"] = .ok (.present objects .directory))
    (lacks : LacksMetadata (tree.lookup current) path) :
    Overlooked (tree.lookup current) path := by
  have plain := (arrives.free_of_missing isName_git lacks.missing).1
  rcases arrives.lookup_of_walk isName_head plain hasHead with head | ⟨limit, among, brokenOff⟩
  · rcases arrives.lookup_of_walk isName_objects plain hasObjects with
      objects | ⟨limit, among, brokenOff⟩
    · exact absurd ⟨head, objects⟩ lacks.notBare
    · exact ⟨lacks.missing, "objects", by simp, limit, among, brokenOff⟩
  · exact ⟨lacks.missing, "HEAD", by simp, limit, among, brokenOff⟩

/-- What makes a directory be overlooked is a path that is too long, or a link in it. -/
theorem Arrives.cause_of_overlooked (arrives : Arrives tree current path left place)
    (overlooked : Overlooked (tree.lookup current) path) :
    ∃ name ∈ ["HEAD", "objects"], pathLimit ≤ Text.utf8Size (Files.inside path name).toList ∨
      tree.lookup current false (Files.inside path name) = .ok .link := by
  have plain := (arrives.free_of_missing isName_git overlooked.missing).1
  obtain ⟨name, member, limit, among, brokenOff⟩ := overlooked.brokenOff
  have isName : IsName name := by
    rcases List.mem_pair.mp member with rfl | rfl
    · exact isName_head
    · exact isName_objects
  exact ⟨name, member, arrives.cause_of_limit isName plain among brokenOff⟩

end FileTree

end GitHistory
