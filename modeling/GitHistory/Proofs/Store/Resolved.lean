import GitHistory.Store.Revision

/-! What a revision resolves to is a commit of the repository that can be read: every target that is
looked up on the way is one, if it is of that kind at all. -/
namespace GitHistory

variable {ε α β : Type}

/-- Whatever a lookup gives has a property. -/
structure Yields (property : α → Prop) (outcome : Except ε α) : Prop where
  gives : ∀ value, outcome = .ok value → property value

variable {property : α → Prop}

theorem Yields.imp {weaker : α → Prop} {outcome : Except ε α} (holds : Yields property outcome)
    (implies : ∀ value, property value → weaker value) : Yields weaker outcome :=
  ⟨fun value same => implies value (holds.gives value same)⟩

theorem yields_ok {value : α} (holds : property value) :
    Yields property (.ok value : Except ε α) := by
  refine ⟨fun result same => ?_⟩
  cases same
  exact holds

theorem yields_error (error : ε) : Yields property (.error error : Except ε α) := by
  refine ⟨fun result same => ?_⟩
  cases same

theorem yields_bind {first : Except ε β} {next : β → Except ε α}
    (rest : ∀ value, first = .ok value → Yields property (next value)) :
    Yields property (first >>= next) := by
  refine ⟨fun result same => ?_⟩
  cases found : first with
  | error error =>
    rw [found] at same
    cases same
  | ok value =>
    rw [found] at same
    exact (rest value found).gives result same

theorem yields_map {change : β → α} {outcome : Except ε β}
    (each : ∀ value, outcome = .ok value → property (change value)) :
    Yields property (outcome.map change) := by
  refine ⟨fun result same => ?_⟩
  cases outcome with
  | error error => cases same
  | ok value =>
    cases same
    exact each value rfl

theorem yields_mapError {ε' : Type} {change : ε → ε'} {outcome : Except ε α}
    (holds : Yields property outcome) : Yields property (outcome.mapError change) := by
  refine ⟨fun result same => ?_⟩
  cases outcome with
  | error error => cases same
  | ok value =>
    cases same
    exact holds.gives result rfl

namespace Store

variable (store : Store)

def IsCommit (id : ObjectId) : Prop := (store.commit? id).isSome = true

/-- A commit of the repository whose text makes sense. -/
def IsReadable (id : ObjectId) : Prop := store.load id = .ok (.commit id)

/-- A target that is a commit of the repository, or of another kind. -/
def IsTarget : Target → Prop
  | .commit id => store.IsReadable id
  | _ => True

variable {store}

theorem isCommit_iff {id : ObjectId} :
    store.IsCommit id ↔ ∃ commit, store.object? id = some (.commit commit) := by
  rw [IsCommit, commit?]
  constructor
  · intro known
    split at known
    · rename_i commit found
      exact ⟨commit, found⟩
    · cases known
  · rintro ⟨commit, found⟩
    rw [found]
    rfl

theorem IsReadable.isCommit {id : ObjectId} (readable : store.IsReadable id) :
    store.IsCommit id := by
  rw [IsReadable, load] at readable
  split at readable
  · cases readable
  · cases readable
  · rename_i commit found
    exact isCommit_iff.mpr ⟨commit, found⟩
  · cases readable
  · cases readable

theorem IsReadable.loadAs_eq {id : ObjectId} (readable : store.IsReadable id) :
    store.loadAs .commit id = .ok (.commit id) := by
  obtain ⟨commit, found⟩ := isCommit_iff.mp readable.isCommit
  have kind : (Object.commit commit).kind = .commit := rfl
  rw [loadAs, found]
  dsimp only
  rw [if_pos kind]
  exact readable

theorem isReadable_of_kind {target : Target} (holds : store.IsTarget target)
    (kind : target.kind = .commit) : store.IsReadable target.id := by
  cases target with
  | commit id => exact holds
  | tag id => cases kind
  | blob id => cases kind
  | tree => cases kind

variable (store)

theorem yields_load (id : ObjectId) : Yields store.IsTarget (store.load id) := by
  rw [load]
  split
  · exact yields_error _
  · exact yields_ok trivial
  · rename_i commit found
    apply yields_map
    intro text read
    change store.load id = .ok (.commit id)
    rw [load, found]
    dsimp only
    rw [read]
    rfl
  · exact yields_ok trivial
  · exact yields_error _

theorem yields_loadAs (kind : ObjectKind) (id : ObjectId) :
    Yields store.IsTarget (store.loadAs kind id) := by
  rw [loadAs]
  split
  · exact yields_error _
  · split
    · exact store.yields_load id
    · exact yields_error _

theorem yields_about (target : Target) : Yields store.IsTarget (store.about target) := by
  cases target with
  | commit id => exact yields_ok trivial
  | tag id =>
    rw [about]
    split
    · exact store.yields_loadAs _ _
    · exact yields_error _
  | blob id => exact yields_error _
  | tree => exact yields_error _

/-- At the end of a chain there is what was wanted. -/
theorem yields_follow (wanted : Wanted) (turns : Nat) (target : Target) :
    Yields (fun found => store.IsTarget found ∧ isWanted wanted found = true)
      (store.follow wanted turns target) := by
  induction turns generalizing target with
  | zero => exact yields_error _
  | succ turns ih =>
    apply yields_bind
    intro next found
    split
    · rename_i stops
      exact yields_ok ⟨(store.yields_about target).gives next found, stops⟩
    · exact ih next

variable {store}

theorem yields_peel {kind : ObjectKind} {target : Target} (holds : store.IsTarget target) :
    Yields (fun found => store.IsTarget found ∧ found.kind = kind) (store.peel kind target) := by
  rw [peel]
  split
  · rename_i same
    exact yields_ok ⟨holds, same⟩
  · split
    · exact yields_error _
    · apply yields_mapError
      apply (store.yields_follow (some kind) _ target).imp
      rintro found ⟨isTarget, stops⟩
      exact ⟨isTarget, of_decide_eq_true stops⟩

theorem yields_untag {target : Target} (holds : store.IsTarget target) :
    Yields store.IsTarget (store.untag target) := by
  rw [untag]
  split
  · exact yields_ok holds
  · apply yields_mapError
    exact (store.yields_follow none _ target).imp fun _ => And.left

theorem yields_peelToCommit {target : Target} (holds : store.IsTarget target) :
    Yields store.IsReadable (store.peelToCommit target) := by
  apply yields_map
  intro found peeled
  obtain ⟨isTarget, kind⟩ := (yields_peel holds).gives found peeled
  exact isReadable_of_kind isTarget kind

/-- What can be read as a commit is one. -/
theorem loadAs_commit {id : ObjectId} {target : Target}
    (same : store.loadAs .commit id = .ok target) :
    target = .commit id ∧ store.IsReadable id := by
  rw [loadAs] at same
  split at same
  · cases same
  · rename_i object found
    split at same
    · rename_i isCommit
      cases object with
      | commit commit =>
        have loaded := same
        rw [load, found] at same
        cases readable : commit.read with
        | error fault =>
          simp only [readable] at same
          cases same
        | ok text =>
          simp only [readable] at same
          cases same
          exact ⟨rfl, loaded⟩
      | blob content => cases isCommit
      | tag about kind => cases isCommit
    · cases same

theorem isReadable_of_readCommit {id : ObjectId} {found : CommitObject × CommitText}
    (same : store.readCommit id = .ok found) : store.IsReadable id := by
  cases loaded : store.loadAs .commit id with
  | error fault =>
    rw [readCommit, loaded] at same
    cases same
  | ok target => exact (loadAs_commit loaded).2

variable (store)

theorem yields_parent (id : ObjectId) (number : Nat) :
    Yields store.IsReadable (store.parent id number) := by
  rw [parent]
  split
  · apply yields_map
    intro target loaded
    obtain ⟨rfl, readable⟩ := loadAs_commit loaded
    exact readable
  · exact yields_error _

variable {store}

theorem yields_ancestor {id : ObjectId} (readable : store.IsReadable id) (generations : Nat) :
    Yields store.IsReadable (store.ancestor generations id) := by
  induction generations generalizing id with
  | zero => exact yields_ok readable
  | succ generations ih =>
    apply yields_bind
    intro parent found
    exact ih ((store.yields_parent id 0).gives parent found)

variable (store)

/-! Names. -/

theorem yields_abbreviated (digits : List Char) :
    Yields store.IsTarget (store.abbreviated digits) := by
  rw [abbreviated]
  split
  · exact yields_error _
  · split
    · exact yields_error _
    · split
      · exact yields_error _
      · exact store.yields_load _
      · exact yields_error _

theorem yields_described (name : List Char) : Yields store.IsTarget (store.described name) := by
  rw [described]
  split
  · split
    · exact store.yields_abbreviated _
    · exact yields_error _
  · exact yields_error _

theorem yields_identified (digits : List Char) :
    Yields store.IsTarget (store.identified digits) := by
  rw [identified]
  split
  · exact store.yields_load _
  · exact yields_error _

theorem yields_ifMissing {other outcome : Except StoreFault α} (instead : Yields property other)
    (holds : Yields property outcome) : Yields property (ifMissing other outcome) := by
  cases outcome with
  | ok found => exact holds
  | error fault =>
    rw [ifMissing]
    split
    · exact instead
    · exact yields_error _

theorem yields_lookup (name : List Char) : Yields store.IsTarget (store.lookup name) := by
  rw [lookup]
  apply yields_ifMissing
  · split
    · exact store.yields_load _
    · refine yields_ifMissing ?_ (yields_error _)
      apply yields_ifMissing (store.yields_described name)
      split
      · exact store.yields_abbreviated name
      · exact yields_error _
  · exact store.yields_identified _

/-! Steps. -/

/-- A search gives a commit whose message it has read. -/
theorem yields_findM? {reads : ObjectId → Except StoreFault Bool} {ids : List ObjectId}
    (each : ∀ id answer, reads id = .ok answer → store.IsReadable id) :
    Yields (fun found => ∀ id, found = some id → store.IsReadable id) (ids.findM? reads) := by
  induction ids with
  | nil =>
    apply yields_ok
    intro id same
    cases same
  | cons id rest ih =>
    unfold List.findM?
    apply yields_bind
    intro answer read
    cases answer with
    | true =>
      apply yields_ok
      intro other same
      cases same
      exact each id true read
    | false => exact ih

theorem yields_search (pattern : Pattern) (tips : List ObjectId) :
    Yields store.IsTarget (store.search pattern tips) := by
  apply yields_bind
  rintro ⟨walk, taken⟩ _
  apply yields_bind
  intro found same
  split
  · rename_i id
    refine yields_ok ((store.yields_findM? ?_).gives _ same id rfl)
    intro id answer read
    cases readable : store.readCommit id with
    | error fault =>
      rw [readable] at read
      cases read
    | ok text => exact isReadable_of_readCommit readable
  · exact yields_error _

variable {store}

theorem yields_base {state : RevisionState}
    (holds : ∀ target, state.target = some target → store.IsTarget target) :
    Yields store.IsTarget (store.base state) := by
  rw [base]
  split
  · rename_i target same
    exact yields_ok (holds target same)
  · split
    · exact yields_error _
    · exact store.yields_lookup _
    · exact store.yields_lookup _

theorem yields_bracedStep {target : Target} (holds : store.IsTarget target)
    (content : List Char) : Yields store.IsTarget (store.bracedStep target content) := by
  unfold bracedStep
  split
  · exact yields_untag holds
  · apply yields_bind
    intro pattern _
    apply yields_bind
    intro id _
    exact store.yields_search pattern [id]
  · split
    · exact (yields_peel holds).imp fun _ => And.left
    · exact yields_error _

theorem yields_start {target : Target} (holds : store.IsTarget target) :
    Yields store.IsReadable (store.start target) :=
  yields_mapError (yields_peelToCommit holds)

theorem yields_commit {id : ObjectId} (readable : store.IsReadable id) :
    Yields store.IsTarget (.ok (.commit id) : Except StoreFault Target) := by
  apply yields_ok
  exact readable

theorem yields_parentStep {target : Target} (holds : store.IsTarget target) (number : Nat) :
    Yields store.IsTarget (store.parentStep target number) := by
  apply yields_bind
  intro id found
  cases number with
  | zero => exact yields_commit ((yields_start holds).gives id found)
  | succ number =>
    apply yields_bind
    intro parent known
    exact yields_commit ((store.yields_parent id number).gives parent known)

theorem yields_ancestorStep {target : Target} (holds : store.IsTarget target)
    (generations : Nat) : Yields store.IsTarget (store.ancestorStep target generations) := by
  apply yields_bind
  intro id found
  apply yields_bind
  intro ancestor known
  have start := (yields_start holds).gives id found
  exact yields_commit ((yields_ancestor start generations).gives ancestor known)

theorem yields_colonStep {state : RevisionState}
    (holds : ∀ target, state.target = some target → store.IsTarget target) (text : List Char) :
    Yields store.IsTarget (store.colonStep state text) := by
  unfold colonStep
  split
  · apply yields_bind
    intro target found
    apply yields_mapError
    have isTarget := (yields_base holds).gives target found
    exact (yields_peel isTarget).imp fun _ => And.left
  · split
    · apply yields_bind
      intro pattern _
      apply yields_bind
      intro tips _
      exact store.yields_search pattern tips
    · exact yields_error _

variable (store)

theorem yields_atDate (name : String) : Yields store.IsTarget (store.atDate name) := by
  have led : ∀ reference : Reference, Yields store.IsTarget
      (if hasLog reference.name then store.load reference.target
        else throw Revision.unknown) := by
    intro reference
    split
    · exact store.yields_load _
    · exact yields_error _
  unfold atDate
  dsimp only
  split
  · split
    · exact led _
    · exact yields_error _
  · exact yields_bind fun reference _ => led reference

theorem yields_atMoment (name : String) (content : List Char) :
    Yields store.IsTarget (store.atMoment name content) := by
  rw [atMoment]
  split
  · exact yields_error _
  · apply yields_bind
    intro reference _
    exact store.yields_load _
  · exact store.yields_atDate name
  · split
    · exact yields_error _
    · apply yields_bind
      intro reference _
      exact yields_error _
  · exact yields_error _

variable {store}

/-- Every step of a revision leads to a target, by induction on the turns. -/
theorem yields_readOn {turns : Nat} {state : RevisionState} {text : List Char}
    (holds : ∀ target, state.target = some target → store.IsTarget target) :
    Yields store.IsTarget (store.readOn turns state text) := by
  induction turns generalizing state text with
  | zero => exact yields_base holds
  | succ turns ih =>
    have goesOn : ∀ (name : List Char) (rest : List Char) (target : Target),
        store.IsTarget target → Yields store.IsTarget
          (store.readOn turns { name := name, target := some target } rest) := by
      intro name rest target isTarget
      apply ih
      intro other same
      cases same
      exact isTarget
    cases text with
    | nil => exact yields_base holds
    | cons first rest =>
      unfold readOn
      split
      · apply yields_bind
        intro target found
        apply yields_bind
        rintro ⟨content, rest⟩ _
        apply yields_bind
        intro next step
        have isTarget := (yields_base holds).gives target found
        exact goesOn _ _ _ ((yields_bracedStep isTarget _).gives next step)
      · apply yields_bind
        intro target found
        apply yields_bind
        intro number _
        apply yields_bind
        intro next step
        have isTarget := (yields_base holds).gives target found
        exact goesOn _ _ _ ((yields_parentStep isTarget _).gives next step)
      · apply yields_bind
        rintro ⟨generations, rest⟩ _
        apply yields_bind
        intro target found
        apply yields_bind
        intro next step
        have isTarget := (yields_base holds).gives target found
        exact goesOn _ _ _ ((yields_ancestorStep isTarget _).gives next step)
      · exact yields_colonStep holds _
      · apply yields_bind
        rintro ⟨content, rest⟩ _
        dsimp only
        split
        · exact yields_error _
        · apply yields_bind
          intro next step
          exact goesOn _ _ _ ((store.yields_atMoment _ _).gives next step)
      · split
        · exact yields_error _
        · exact ih holds

variable (store)

theorem yields_revision (text : List Char) : Yields store.IsReadable (store.revision text) := by
  apply yields_bind
  intro target found
  apply yields_peelToCommit
  refine (yields_readOn ?_).gives target found
  intro other same
  cases same

/-- What a revision resolves to can be read as a commit. -/
theorem yields_readable (reference : String) :
    Yields store.IsReadable (store.resolve reference) := by
  apply yields_bind
  intro checked _
  split
  · exact yields_error _
  · exact yields_mapError (store.yields_revision _)

/-- What a revision resolves to is a commit. -/
theorem yields_resolve (reference : String) : Yields store.IsCommit (store.resolve reference) :=
  (store.yields_readable reference).imp fun _ => IsReadable.isCommit

end Store

end GitHistory
