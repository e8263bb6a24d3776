import GitHistory.Manager
import GitHistory.Proofs.Executable.Guard
import GitHistory.Proofs.InProcess.Guard

/-! The check of revisions in both backends. With the executable it comes before anything else and
names the first revision used that looks like an option. In-process the repository is opened first,
and what cannot be opened or looked up before the check is what the operation fails with. -/
namespace GitHistory

variable {α : Type}

/-- What becomes of an operation in a repository that looks revisions up in an order. -/
structure GuardedInTurn (world : World) (root : RawPath) (order : List String)
    (outcome : Except GitError α) : Prop where
  unopened : ∀ error, InProcess.openStore world root = .error error → outcome = .error error
  stopped : ∀ store error, InProcess.openStore world root = .ok store →
    store.obstacle? order = some error → outcome = .error error
  fails : (∃ revision ∈ order, looksLikeOption revision = true) → ∃ error, outcome = .error error
  refuses_iff : ∀ revision, outcome = .error (.invalidReference revision) ↔
    ∃ store before after, InProcess.openStore world root = .ok store ∧
      order = before ++ revision :: after ∧ looksLikeOption revision = true ∧
      ∀ other ∈ before, ∃ id, store.resolve other = .ok id

theorem InProcess.openStore_unrefused (world : World) (root : RawPath) :
    Unrefused (InProcess.openStore world root) := by
  intro revision refused
  have told : ∀ opened : Except OpenFault Store,
      opened.mapError (openFailure root.shown) ≠ .error (.invalidReference revision) := by
    rintro (fault | store)
    · cases fault <;> nofun
    · nofun
  exact told _ refused

/-- An operation that opens the repository and then looks revisions up is guarded in turn. -/
theorem guardedInTurn_of_stoppedBy {world : World} {root : RawPath} {order : List String}
    {operation : Store → Except GitError α}
    (looksUp : ∀ store : Store, store.StoppedBy order (operation store)) :
    GuardedInTurn world root order (InProcess.openStore world root >>= operation) := by
  cases opened : InProcess.openStore world root with
  | error failure =>
    have unrefused := InProcess.openStore_unrefused world root
    rw [opened] at unrefused
    refine ⟨?_, ?_, fun _ => ⟨failure, rfl⟩, ?_⟩
    · rintro error same
      rw [opened] at same
      exact congrArg Except.error (Except.error.inj same)
    · intro store error same
      rw [opened] at same
      cases same
    · intro revision
      constructor
      · intro refused
        exact absurd (congrArg Except.error (Except.error.inj refused)) (unrefused revision)
      · rintro ⟨store, before, after, same, -⟩
        rw [opened] at same
        cases same
  | ok store =>
    have outcome := looksUp store
    rw [Store.StoppedBy] at outcome
    refine ⟨?_, ?_, ?_, ?_⟩
    · intro error same
      rw [opened] at same
      cases same
    · intro other error same stopped
      rw [opened] at same
      obtain rfl := Except.ok.inj same
      rw [stopped] at outcome
      exact outcome
    · rintro ⟨revision, member, option⟩
      cases obstacle : store.obstacle? order with
      | none => exact absurd obstacle (Store.obstacle?_ne_none member option)
      | some error =>
        rw [obstacle] at outcome
        exact ⟨error, outcome⟩
    · intro revision
      constructor
      · intro refused
        cases obstacle : store.obstacle? order with
        | none =>
          rw [obstacle] at outcome
          exact absurd refused (outcome revision)
        | some error =>
          rw [obstacle] at outcome
          obtain rfl := Except.error.inj (outcome.symm.trans refused)
          obtain ⟨before, after, parts⟩ := Store.obstacle?_eq_refusal_iff.mp obstacle
          exact ⟨store, before, after, opened, parts⟩
      · rintro ⟨other, before, after, same, parts⟩
        rw [opened] at same
        obtain rfl := Except.ok.inj same
        rw [Store.obstacle?_eq_refusal_iff.mpr ⟨before, after, parts⟩] at outcome
        exact outcome

namespace Executable

/-- A query whose arguments do not pass does nothing but fail. -/
theorem execute_query_refused {σ : Type} (host : Plan.Host σ) {program : String}
    {arguments : Except GitError (List String)} {error : GitError}
    (refused : arguments = .error error) (decode : Except GitError String → Except GitError α)
    (state : σ) :
    (query program arguments decode).execute host state = (.error error, state) := by
  rw [refused]
  rfl

end Executable

theorem refusal?_eq_some {revisions : List String} {revision : String}
    (first : revisions.find? looksLikeOption = some revision) :
    Executable.refusal? revisions = some (.invalidReference revision) := by
  rw [Executable.refusal?, first]
  rfl

/-- The order in which a range is looked up: its tip before its boundary. -/
theorem lookupOrder_eq (request : Request) :
    (RevisionRange.resolve request.branchRef request.oldest request.newest).tip ::
        (RevisionRange.resolve request.branchRef request.oldest request.newest).boundary?.toList =
      (usedRevisions request.branchRef request.oldest request.newest).reverse := by
  rw [RevisionRange.resolve, usedRevisions]
  cases nonEmpty? request.oldest <;> cases nonEmpty? request.newest <;> rfl

/-- Revisions that look like options under a live context: with the executable, the operation
fails for the first one used and nothing else happens; in-process, revisions are guarded in turn, a
boundary behind the tip. -/
theorem revisions_guarded (program : String) (host : Caller → Executable.Plan.Host Stage)
    (credentials : Option Credentials) (stage : Stage) (root : String) :
    (∀ request : Request,
      (∀ revision, (usedRevisions request.branchRef request.oldest request.newest).find?
          looksLikeOption = some revision →
        (Manager.executable program host).commitsForRange ⟨false, credentials⟩ ⟨root⟩ request
          stage = (.error (.invalidReference revision), stage)) ∧
      GuardedInTurn stage.world root
        (usedRevisions request.branchRef request.oldest request.newest).reverse
        (Manager.inProcess.commitsForRange ⟨false, credentials⟩ ⟨root⟩ request stage).1) ∧
    (∀ (path : RawPath) reference,
      (looksLikeOption reference = true →
        (Manager.executable program host).commitByReference ⟨false, credentials⟩ path reference
          stage = (.error (.invalidReference reference), stage)) ∧
      GuardedInTurn stage.world path [reference]
        (Manager.inProcess.commitByReference ⟨false, credentials⟩ path reference stage).1) ∧
    (∀ (path : RawPath) revision other,
      (∀ used, (Executable.comparedRevisions revision other).find? looksLikeOption = some used →
        (Manager.executable program host).diffStats ⟨false, credentials⟩ path revision other
          stage = (.error (.invalidReference used), stage)) ∧
      GuardedInTurn stage.world path (Executable.comparedRevisions revision other)
        (Manager.inProcess.diffStats ⟨false, credentials⟩ path revision other stage).1) := by
  refine ⟨fun request => ⟨?_, ?_⟩, fun path reference => ⟨?_, ?_⟩,
    fun path revision other => ⟨?_, ?_⟩⟩
  · intro revision first
    apply Executable.execute_query_refused
    rw [Executable.logArguments_eq, refusal?_eq_some first]
  · rw [← lookupOrder_eq]
    exact guardedInTurn_of_stoppedBy fun store => store.stoppedBy_commitsForRange _ _ _
  · intro option
    have first : [reference].find? looksLikeOption = some reference := by simp [option]
    apply Executable.execute_query_refused
    rw [Executable.showArguments_eq, refusal?_eq_some first]
  · exact guardedInTurn_of_stoppedBy fun store => store.stoppedBy_commitByReference _ reference
  · intro used first
    apply Executable.execute_query_refused
    rw [Executable.diffArguments_eq, refusal?_eq_some first]
  · exact guardedInTurn_of_stoppedBy fun store => store.stoppedBy_diffStats revision other

/-- A range of which the boundary looks like an option and the tip leads nowhere: in-process it is
the tip that is complained about. -/
theorem revision_guard_behind_missing_tip :
    (usedRevisions "gone" (some "-x") none).find? looksLikeOption = some "-x" ∧
    ((Manager.executable "git" Stage.rehearsalHost).commitsForRange {} ⟨"/repo"⟩
      ⟨"gone", "gone", 1, some "-x", none⟩ ⟨World.ofStore .fresh, [], [], 0⟩).1 =
        .error (.invalidReference "-x") ∧
    (Manager.inProcess.commitsForRange {} ⟨"/repo"⟩ ⟨"gone", "gone", 1, some "-x", none⟩
      ⟨World.ofStore .fresh, [], [], 0⟩).1 = .error (.notFound "gone") ∧
    (Manager.inProcess.commitsForRange {} ⟨"/repo"⟩ ⟨"gone", "gone", 1, some "-x", none⟩
      ⟨World.ofStore .fresh, [], [], 0⟩).1 ≠ .error (.invalidReference "-x") := by
  have missing : Store.fresh.resolve "gone" = .error (.notFound "gone") := by rfl
  have outcome : InProcess.commitsForRange (World.ofStore .fresh) {} "/repo"
      ⟨"gone", "gone", 1, some "-x", none⟩ = .error (.notFound "gone") := by
    have tip : (RevisionRange.resolve "gone" (some "-x") none).tip = "gone" := by rfl
    rw [InProcess.commitsForRange, InProcess.openStore_ofStore]
    simp only [InProcess.unlessCancelled, bind, Except.bind, Store.commitsForRange, Store.range,
      tip, missing]
    rfl
  refine ⟨by decide, by rfl, outcome, ?_⟩
  intro refused
  cases outcome.symm.trans refused

end GitHistory
