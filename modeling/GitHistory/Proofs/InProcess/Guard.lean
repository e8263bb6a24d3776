import GitHistory.Proofs.InProcess.Opened
import GitHistory.Proofs.Revision.Range

/-! In-process, revisions are checked one by one as they are looked up. The check of one that looks
like an option decides the outcome just when the repository opens and every revision before it
leads to a commit; the operation fails in any case. -/
namespace GitHistory

variable {α β : Type}

/-- An outcome that is not the refusal of a revision. -/
def Unrefused (outcome : Except GitError α) : Prop :=
  ∀ revision, outcome ≠ .error (.invalidReference revision)

theorem unrefused_ok (value : α) : Unrefused (.ok value : Except GitError α) := by
  intro revision refused
  cases refused

theorem unrefused_bind {first : Except GitError α} {next : α → Except GitError β}
    (start : Unrefused first) (rest : ∀ value, first = .ok value → Unrefused (next value)) :
    Unrefused (first >>= next) := by
  cases first with
  | error error =>
    intro revision refused
    exact start revision (congrArg Except.error (Except.error.inj refused))
  | ok value => exact rest value rfl

theorem unrefused_mapError_store (outcome : Except StoreFault α) :
    Unrefused (outcome.mapError GitError.store) := by
  intro revision refused
  cases outcome <;> cases refused

theorem unrefused_map {change : α → β} {outcome : Except GitError α} (start : Unrefused outcome) :
    Unrefused (change <$> outcome) := by
  intro revision refused
  cases outcome with
  | error error => exact start revision (congrArg Except.error (Except.error.inj refused))
  | ok value => cases refused

theorem unrefused_mapM {read : α → Except GitError β} (each : ∀ value, Unrefused (read value))
    (values : List α) : Unrefused (values.mapM read) := by
  induction values with
  | nil => exact unrefused_ok []
  | cons value rest ih =>
    rw [List.mapM_cons]
    apply unrefused_bind (each value)
    intro result _
    apply unrefused_bind ih
    intro results _
    exact unrefused_ok (result :: results)

namespace Store

variable (store : Store)

theorem resolve_option {revision : String} (option : looksLikeOption revision = true) :
    store.resolve revision = .error (.invalidReference revision) := by
  rw [resolve, checkRevision_eq_error option]
  rfl

theorem unrefused_resolve {revision : String} (passes : looksLikeOption revision = false) :
    Unrefused (store.resolve revision) := by
  intro other refused
  rw [resolve, checkRevision_eq_ok passes] at refused
  simp only [bind, Except.bind] at refused
  split at refused
  · cases refused
  · cases found : store.revision revision.toList with
    | ok id =>
      rw [found] at refused
      cases refused
    | error fault =>
      rw [found] at refused
      have equal : (if isUnresolved fault then .notFound revision else .store fault) =
          GitError.invalidReference other := Except.error.inj refused
      split at equal <;> cases equal

/-- What stops revisions from being looked up one after the other. -/
def obstacle? (revisions : List String) : Option GitError :=
  revisions.findSome? fun revision =>
    match store.resolve revision with
    | .ok _ => none
    | .error error => some error

variable {store}

theorem obstacle?_cons_ok {revision : String} {id : ObjectId}
    (resolved : store.resolve revision = .ok id) (rest : List String) :
    store.obstacle? (revision :: rest) = store.obstacle? rest := by
  rw [obstacle?, List.findSome?_cons, resolved]
  rfl

theorem obstacle?_cons_error {revision : String} {error : GitError}
    (stopped : store.resolve revision = .error error) (rest : List String) :
    store.obstacle? (revision :: rest) = some error := by
  rw [obstacle?, List.findSome?_cons, stopped]

theorem obstacle?_ne_none {revisions : List String} {revision : String}
    (member : revision ∈ revisions) (option : looksLikeOption revision = true) :
    store.obstacle? revisions ≠ none := by
  intro none
  have passed := List.findSome?_eq_none_iff.mp none revision member
  rw [resolve_option store option] at passed
  cases passed

/-- A revision is refused if it looks like an option and those before it lead to commits. -/
theorem obstacle?_eq_refusal_iff {revisions : List String} {revision : String} :
    store.obstacle? revisions = some (.invalidReference revision) ↔
      ∃ before after, revisions = before ++ revision :: after ∧
        looksLikeOption revision = true ∧ ∀ other ∈ before, ∃ id, store.resolve other = .ok id := by
  rw [obstacle?, List.findSome?_eq_some_iff]
  constructor
  · rintro ⟨before, stopping, after, rfl, refused, passed⟩
    cases option : looksLikeOption stopping with
    | false =>
      have unrefused := unrefused_resolve store option revision
      split at refused
      · cases refused
      · rename_i error failed
        exact absurd (failed.trans (congrArg Except.error (Option.some.inj refused))) unrefused
    | true =>
      rw [resolve_option store option] at refused
      obtain rfl : stopping = revision := GitError.invalidReference.inj (Option.some.inj refused)
      refine ⟨before, after, rfl, option, ?_⟩
      intro other member
      have found := passed other member
      split at found
      · rename_i id resolved
        exact ⟨id, resolved⟩
      · cases found
  · rintro ⟨before, after, rfl, option, passed⟩
    refine ⟨before, revision, after, rfl, ?_, ?_⟩
    · rw [resolve_option store option]
    · intro other member
      obtain ⟨id, resolved⟩ := passed other member
      rw [resolved]

/-- An outcome that is the obstacle of some revisions, or else no refusal. -/
def StoppedBy (store : Store) (revisions : List String) (outcome : Except GitError α) : Prop :=
  match store.obstacle? revisions with
  | some error => outcome = .error error
  | none => Unrefused outcome

theorem stoppedBy_nil {outcome : Except GitError α} (unrefused : Unrefused outcome) :
    store.StoppedBy [] outcome := unrefused

/-- Looking up a revision puts it in front of those that are looked up later. -/
theorem stoppedBy_resolve {revision : String} {rest : List String}
    {next : ObjectId → Except GitError α}
    (later : ∀ id, store.resolve revision = .ok id → store.StoppedBy rest (next id)) :
    store.StoppedBy (revision :: rest) (store.resolve revision >>= next) := by
  cases resolved : store.resolve revision with
  | ok id =>
    rw [StoppedBy, obstacle?_cons_ok resolved]
    exact later id resolved
  | error error =>
    rw [StoppedBy, obstacle?_cons_error resolved]
    rfl

theorem stoppedBy_bind {revisions : List String} {first : Except GitError α}
    {next : α → Except GitError β} (start : store.StoppedBy revisions first)
    (rest : ∀ value, first = .ok value → Unrefused (next value)) :
    store.StoppedBy revisions (first >>= next) := by
  rw [StoppedBy] at start ⊢
  split at start
  · rw [start]
    rfl
  · exact unrefused_bind start rest

/-! The operations. -/

theorem unrefused_isoStrict (seconds minutes : Int) : Unrefused (isoStrict seconds minutes) := by
  intro revision refused
  rw [isoStrict] at refused
  split at refused
  · cases refused
  · split at refused
    · cases refused
    · split at refused <;> cases refused

theorem unrefused_read (root : String) (id : ObjectId) : Unrefused (store.read root id) := by
  apply unrefused_bind (unrefused_mapError_store _)
  rintro ⟨commit, text⟩ _
  refine unrefused_bind (unrefused_bind (unrefused_isoStrict _ _) ?_) ?_
  · intro date _
    exact unrefused_ok _
  · intro entry _
    exact unrefused_ok _

theorem unrefused_notFound (reference : String) :
    Unrefused (.error (.notFound reference) : Except GitError α) := by
  intro revision refused
  cases refused

theorem stoppedBy_hidden (boundary : Option String) :
    store.StoppedBy boundary.toList (store.hidden boundary) := by
  cases boundary with
  | none => exact stoppedBy_nil (unrefused_ok none)
  | some oldest =>
    apply stoppedBy_resolve
    intro id _
    apply stoppedBy_nil
    split
    · exact unrefused_map (unrefused_mapError_store _)
    · exact unrefused_notFound _

theorem stoppedBy_range (range : RevisionRange) (count : Nat) :
    store.StoppedBy (range.tip :: range.boundary?.toList) (store.range range count) := by
  apply stoppedBy_resolve
  intro tip _
  apply stoppedBy_bind (stoppedBy_hidden range.boundary?)
  intro hidden _
  split
  · exact unrefused_ok []
  · apply unrefused_bind (unrefused_mapError_store _)
    intro history _
    exact unrefused_ok _

theorem stoppedBy_commitsForRange (root : String) (range : RevisionRange) (count : Nat) :
    store.StoppedBy (range.tip :: range.boundary?.toList)
      (store.commitsForRange root range count) := by
  apply stoppedBy_bind (stoppedBy_range range count)
  intro ids _
  exact unrefused_mapM (unrefused_read root) ids

theorem stoppedBy_commitByReference (root reference : String) :
    store.StoppedBy [reference] (store.commitByReference root reference) := by
  apply stoppedBy_resolve
  intro id _
  exact stoppedBy_nil (unrefused_read root id)

theorem stoppedBy_compared (revision : String) (other : Option String) :
    store.StoppedBy (revision :: (nonEmpty? other).toList) (store.compared revision other) := by
  apply stoppedBy_resolve
  intro id _
  cases nonEmpty? other with
  | some other =>
    apply stoppedBy_resolve
    intro second _
    exact stoppedBy_nil (unrefused_ok (id, second))
  | none =>
    apply stoppedBy_nil
    dsimp only
    split
    · exact unrefused_ok _
    · exact unrefused_notFound _

theorem stoppedBy_diffStats (revision : String) (other : Option String) :
    store.StoppedBy (revision :: (nonEmpty? other).toList) (store.diffStats revision other) := by
  apply stoppedBy_bind (stoppedBy_compared revision other)
  intro sides _
  exact unrefused_ok _

end Store

end GitHistory
