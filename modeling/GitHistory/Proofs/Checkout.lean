import GitHistory.Checkout
import GitHistory.Proofs.Files.Absolute
import GitHistory.Proofs.Files.Directories

/-! A checkout is handed out under a normal path, under which it is opened again from anywhere.
Only metadata that is known to be missing keeps a directory from being one: any other failure to
look it up does not. -/
namespace GitHistory

variable {look other : Lookup} {root path : String} {checkout : Checkout}

/-- There is nothing at `.git`, nor the layout of a bare repository. -/
structure LacksMetadata (look : Lookup) (root : String) : Prop where
  missing : look false (Files.inside root ".git") = .error .notFound
  notBare : ¬(look true (Files.inside root "HEAD") = .ok .file ∧
    look true (Files.inside root "objects") = .ok .directory)

theorem Lookup.leadsTo_iff {kind : EntryKind} :
    look.leadsTo kind path = true ↔ look true path = .ok kind := by
  rw [leadsTo]
  split
  · rename_i found told
    simp [told]
  · rename_i error told
    simp [told]

theorem hasBareLayout_iff :
    hasBareLayout look root = true ↔ look true (Files.inside root "HEAD") = .ok .file ∧
      look true (Files.inside root "objects") = .ok .directory := by
  rw [hasBareLayout, Bool.and_eq_true, Lookup.leadsTo_iff, Lookup.leadsTo_iff]

theorem checkoutAt_of_lacks (lacks : LacksMetadata look root) :
    checkoutAt look root = .error (.notARepository root) := by
  rw [checkoutAt, lacks.missing]
  simp only
  rw [if_neg fun bare => lacks.notBare (hasBareLayout_iff.mp bare)]

theorem checkoutAt_of_holds (holds : ¬LacksMetadata look root) :
    checkoutAt look root = .ok ⟨root⟩ := by
  rw [checkoutAt]
  split
  · rename_i missing
    split
    · rfl
    · rename_i notBare
      exact absurd ⟨missing, fun bare => notBare (hasBareLayout_iff.mpr bare)⟩ holds
  · rfl

theorem checkoutAt_eq_ok_iff :
    checkoutAt look root = .ok checkout ↔ root = checkout.root ∧ ¬LacksMetadata look root := by
  by_cases lacks : LacksMetadata look root
  · simp [checkoutAt_of_lacks lacks, lacks]
  · obtain ⟨named⟩ := checkout
    simp [checkoutAt_of_holds lacks, lacks]

theorem checkoutAt_eq_notARepository_iff {named : String} :
    checkoutAt look root = .error (.notARepository named) ↔
      root = named ∧ LacksMetadata look root := by
  by_cases lacks : LacksMetadata look root
  · simp [checkoutAt_of_lacks lacks, lacks]
  · simp [checkoutAt_of_holds lacks, lacks]

/-- The files are the same, though maybe seen from another directory. -/
def Lookup.SameFiles (look other : Lookup) : Prop :=
  ∀ follow path, Files.isAbsolute path = true → other follow path = look follow path

/-- At an absolute path it does not matter from where one looks. -/
theorem lacksMetadata_iff (same : look.SameFiles other) (rooted : Files.isAbsolute root = true) :
    LacksMetadata other root ↔ LacksMetadata look root := by
  have told : ∀ follow name, other follow (Files.inside root name) =
      look follow (Files.inside root name) := by
    intro follow name
    exact same follow _ (Files.isAbsolute_inside rooted name)
  constructor
  · rintro ⟨missing, notBare⟩
    rw [told] at missing
    rw [told, told] at notBare
    exact ⟨missing, notBare⟩
  · rintro ⟨missing, notBare⟩
    rw [← told] at missing
    rw [← told, ← told] at notBare
    exact ⟨missing, notBare⟩

/-- A checkout is opened at a path that can be made absolute and has metadata there. -/
theorem openCheckoutBy_eq_ok_iff {current : String} :
    openCheckoutBy look current path = .ok checkout ↔
      Files.absolute current path = .ok checkout.root ∧ ¬LacksMetadata look checkout.root := by
  rw [openCheckoutBy]
  split
  · rename_i error unnamed
    simp [unnamed]
  · rename_i found rooted
    rw [checkoutAt_eq_ok_iff, rooted, Except.ok.injEq]
    exact and_congr_right fun same => by rw [same]

theorem openCheckoutBy_eq_notARepository_iff {current : String} :
    openCheckoutBy look current path = .error (.notARepository root) ↔
      Files.absolute current path = .ok root ∧ LacksMetadata look root := by
  rw [openCheckoutBy]
  split
  · rename_i error unnamed
    simp [unnamed]
  · rename_i found rooted
    rw [checkoutAt_eq_notARepository_iff, rooted, Except.ok.injEq]
    exact and_congr_right fun same => by rw [same]

theorem FileTree.locate_of_isAbsolute (tree : FileTree) (current other : Route) (follow : Bool)
    (rooted : Files.isAbsolute path = true) :
    tree.locate other follow path = tree.locate current follow path := by
  rw [locate, locate, if_pos rooted, if_pos rooted]

theorem FileTree.sameFiles_lookup (tree : FileTree) (current other : Route) :
    (tree.lookup current).SameFiles (tree.lookup other) := by
  intro follow path rooted
  rw [lookup, lookup, find, find, tree.locate_of_isAbsolute current other follow rooted]

/-- How a path is opened from a directory: a checkout has a normal path, under which it is opened
again from any other directory, and only a directory without metadata is refused. -/
structure Opens (look : Lookup) (current path : String) : Prop where
  normal : ∀ checkout, openCheckoutBy look current path = .ok checkout →
    Files.IsNormal checkout.root
  again : ∀ checkout, openCheckoutBy look current path = .ok checkout →
    ∀ other, look.SameFiles other → ∀ elsewhere,
      openCheckoutBy other elsewhere checkout.root = .ok checkout
  opened : path ≠ "" → ∃ root, Files.absolute current path = .ok root ∧
    (¬LacksMetadata look root → openCheckoutBy look current path = .ok ⟨root⟩)
  refused : ∀ root, openCheckoutBy look current path = .error (.notARepository root) ↔
    path ≠ "" ∧ Files.absolute current path = .ok root ∧ LacksMetadata look root

theorem opens_of_isNormal {current : String} (normal : Files.IsNormal current) (look : Lookup)
    (path : String) : Opens look current path where
  normal checkout opened := by
    obtain ⟨rooted, -⟩ := openCheckoutBy_eq_ok_iff.mp opened
    exact Files.isNormal_of_absolute normal rooted
  again checkout opened other same elsewhere := by
    obtain ⟨rooted, holds⟩ := openCheckoutBy_eq_ok_iff.mp opened
    have root := Files.isNormal_of_absolute normal rooted
    refine openCheckoutBy_eq_ok_iff.mpr ⟨Files.absolute_of_isNormal elsewhere root, ?_⟩
    rwa [lacksMetadata_iff same root.rooted]
  opened named := by
    obtain ⟨root, rooted⟩ := Files.exists_absolute current named
    exact ⟨root, rooted, fun holds => openCheckoutBy_eq_ok_iff.mpr ⟨rooted, holds⟩⟩
  refused root := by
    rw [openCheckoutBy_eq_notARepository_iff]
    exact (and_iff_right_of_imp fun lacks => Files.ne_empty_of_absolute lacks.1).symm

theorem Route.isNormal_text {route : Route} (named : ∀ name ∈ route, Files.IsPart name) :
    Files.IsNormal route.text :=
  Files.isNormal_iff.mpr ⟨⟨false, route, named, false⟩, rfl⟩

/-- Opening a checkout makes its path normal, as that of the current directory is, and opening it
again changes nothing: whatever lookups tell, and in a tree, where they follow the links that there
are. -/
theorem openCheckout_normal (path : String) :
    (∀ look current, Files.IsNormal current → Opens look current path) ∧
      ∀ (tree : FileTree) (current : Route), (∀ name ∈ current, Files.IsPart name) →
        Opens (tree.lookup current) current.text path ∧
          ∀ checkout, openCheckout tree current path = .ok checkout →
            ∀ other, openCheckout tree other checkout.root = .ok checkout := by
  refine ⟨fun look current normal => opens_of_isNormal normal look path, ?_⟩
  intro tree current named
  have opens := opens_of_isNormal (Route.isNormal_text named) (tree.lookup current) path
  refine ⟨opens, fun checkout opened other => ?_⟩
  exact opens.again checkout opened _ (tree.sameFiles_lookup current other) other.text

/-- A checkout at `/work/repo`. -/
def workTree : FileTree :=
  ⟨[(["work"], .directory), (["work", "repo"], .directory),
    (["work", "repo", ".git"], .directory)]⟩

section
open FileTree

theorem find_workTree (current : Route) :
    workTree.find current false "/work/repo/.git" =
      .ok (["work", "repo", ".git"], .directory) := by
  have parts : Files.parts "/work/repo/.git" = ["", "work", "repo", ".git"] := by decide +kernel
  have usable : IsUsable "/work/repo/.git" :=
    ⟨by decide +kernel, by decide +kernel, by decide +kernel⟩
  have rooted : Files.isAbsolute "/work/repo/.git" = true := by decide +kernel
  have work : IsName "work" := ⟨by decide, by decide, by decide +kernel, by decide, by decide⟩
  have repo : IsName "repo" := ⟨by decide, by decide, by decide +kernel, by decide, by decide⟩
  have git : IsName ".git" := ⟨by decide, by decide, by decide +kernel, by decide, by decide⟩
  rw [find, locate_eq usable, parts, rooted, if_pos rfl, walk, if_pos (.inl rfl),
    walk_into work rfl, walk_into repo rfl, walk_into git rfl, walk]
  rfl

end

theorem openCheckout_workTree :
    openCheckout workTree ["work"] ".//repo/./" = .ok ⟨"/work/repo/"⟩ := by
  refine openCheckoutBy_eq_ok_iff.mpr ⟨rfl, fun lacks => ?_⟩
  have missing := lacks.missing
  have git : Files.inside "/work/repo/" ".git" = "/work/repo/.git" := by decide +kernel
  rw [git, FileTree.lookup, find_workTree] at missing
  cases missing

theorem openCheckout_normal_samples :
    openCheckout workTree ["work"] ".//repo/./" = .ok ⟨"/work/repo/"⟩ ∧
      Files.IsNormal "/work/repo/" ∧
      openCheckout workTree ["home"] "/work/repo/" = .ok ⟨"/work/repo/"⟩ ∧
      openCheckoutBy (fun _ _ => .error .permissionDenied) "/work" ".//repo/./" =
        .ok ⟨"/work/repo/"⟩ ∧
      openCheckoutBy (fun _ _ => .error .notFound) "/work" ".//repo/./" =
        .error (.notARepository "/work/repo/") := by
  have named : ∀ name ∈ ["work"], Files.IsPart name := by
    rintro name (_ | ⟨_, ⟨⟩⟩)
    exact ⟨by decide, by decide⟩
  have work : Files.IsNormal "/work" := Route.isNormal_text named
  obtain ⟨anywhere, inTree⟩ := openCheckout_normal ".//repo/./"
  obtain ⟨opens, again⟩ := inTree workTree ["work"] named
  have normal := opens.normal ⟨"/work/repo/"⟩ openCheckout_workTree
  have denied := anywhere (fun _ _ => .error .permissionDenied) "/work" work
  have missing := anywhere (fun _ _ => .error .notFound) "/work" work
  obtain ⟨root, rooted, opened⟩ := denied.opened (by decide)
  obtain rfl : "/work/repo/" = root := Except.ok.inj rooted
  refine ⟨openCheckout_workTree, normal, again _ openCheckout_workTree ["home"],
    opened fun lacks => ?_, (missing.refused "/work/repo/").mpr ⟨by decide, rfl, rfl, nofun⟩⟩
  cases lacks.missing

end GitHistory
