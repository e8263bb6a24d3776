import GitHistory.Manager
import GitHistory.Proofs.InProcess.HandedOut
import GitHistory.Proofs.Store.Foremost
import GitHistory.Proofs.Store.Identified
import GitHistory.Proofs.Store.Tags

/-! The commit of a reference, however one asks for it in-process: by name, as a tag, as a hash, or
for the history that starts there. All of them give the same commit, or fail in the same way. -/
namespace GitHistory

/-- The commit of a reference, looked up by name, as a tag and as a hash. -/
structure LooksUp (stage : Stage) (caller : Caller) (root : RawPath) (reference : String)
    (result : Except GitError Commit) : Prop where
  byReference :
    Manager.inProcess.commitByReference caller root reference stage = (result, stage)
  byTag : Manager.inProcess.commitForTag caller root reference stage = (result, stage)
  byHash : Manager.inProcess.commitForHash caller root reference stage = (result, stage)

namespace Store

variable {store : Store} {reference : String} {id : ObjectId}

/-- What a reference leads to, before tags are peeled. -/
def LeadsTo (store : Store) (reference : String) (target : Target) : Prop :=
  store.readOn (reference.toList.length + 1) {} reference.toList = .ok target

/-- How a failure to resolve a reference is told. -/
def told (reference : String) (fault : StoreFault) : GitError :=
  if isUnresolved fault then .notFound reference else .store fault

theorem resolve_eq (passes : looksLikeOption reference = false)
    (text : reference.toList.contains '\x00' = false) :
    store.resolve reference = (store.revision reference.toList).mapError (told reference) := by
  rw [resolve, checkRevision, passes, if_neg Bool.false_ne_true]
  dsimp only [bind, Except.bind]
  rw [text, if_neg Bool.false_ne_true]
  rfl

theorem LeadsTo.resolve_eq {target : Target} (leads : store.LeadsTo reference target)
    (passes : looksLikeOption reference = false)
    (text : reference.toList.contains '\x00' = false) :
    store.resolve reference = (store.peelToCommit target).mapError (told reference) := by
  rw [Store.resolve_eq passes text, revision]
  dsimp only [bind, Except.bind]
  rw [leads]

theorem isFull_of_isReadable (readable : store.IsReadable id) : id.IsFull := by
  obtain ⟨commit, found⟩ := isCommit_iff.mp readable.isCommit
  exact isFull_of_object? found

/-- The full id of a commit stands for that commit. -/
theorem IsReadable.resolve_eq (readable : store.IsReadable id) : store.resolve id = .ok id := by
  have full := isFull_of_isReadable readable
  have leads : store.LeadsTo id (.commit id) := readOn_eq full readable
  rw [leads.resolve_eq full.looksLikeOption_eq full.no_nul, peelToCommit_of_commit (.none _)]
  rfl

end Store

section
variable {stage : Stage} {caller : Caller} {root : RawPath} {reference : String} {store : Store}
  {id : ObjectId}

theorem looksUp (opened : InProcess.openStore stage.world root = .ok store)
    (live : caller.cancelled = false) (reference : String) :
    LooksUp stage caller root reference (store.commitByReference root.shown reference) := by
  have answer : Manager.inProcess.commitByReference caller root reference stage =
      (store.commitByReference root.shown reference, stage) :=
    congrArg (·, stage) (InProcess.commitByReference_eq opened live)
  exact ⟨answer, answer, answer⟩

end

namespace Store

/-- A commit with a tag and a tag of that one, and a blob with a tag and without. -/
def tagged : Store where
  objects := byDigit [
    ('c', bare [] "1700000000"),
    ('d', .tag (idOf 'c') (some .commit)),
    ('e', .tag (idOf 'd') (some .tag)),
    ('b', .blob []),
    ('f', .tag (idOf 'b') (some .blob))]
  references := [("refs/tags/v1", idOf 'e'), ("refs/tags/file", idOf 'b'),
    ("refs/tags/signed", idOf 'f')]
  head := .symbolic "refs/heads/main"
  remotes := []
  full := full_byDigit (by decide)

end Store

end GitHistory
