import GitHistory.Proofs.InProcess.History

/-! The commits that are handed out in-process have been read from the repository, each under its own
hash; the first one of a range that cannot be read decides how the query fails. -/
namespace GitHistory

section
variable {ε α β : Type} {read : α → Except ε β}

/-- What comes of a list has been read value by value. -/
theorem exists_read_of_mapM {values : List α} {results : List β}
    (all : values.mapM read = .ok results) : ∀ result ∈ results, ∃ value, read value = .ok result := by
  induction values generalizing results with
  | nil =>
    cases all
    exact fun _ member => nomatch member
  | cons value rest ih =>
    rw [List.mapM_cons] at all
    cases first : read value with
    | error error =>
      rw [first] at all
      cases all
    | ok result =>
      cases others : rest.mapM read with
      | error error =>
        rw [first, others] at all
        cases all
      | ok more =>
        rw [first, others] at all
        cases all
        exact List.forall_mem_cons.mpr ⟨⟨value, first⟩, ih others⟩

/-- The first value that cannot be read decides. -/
theorem mapM_eq_error {before after : List α} {value : α} {error : ε}
    (fine : ∀ earlier ∈ before, ∃ result, read earlier = .ok result)
    (failed : read value = .error error) :
    (before ++ value :: after).mapM read = .error error := by
  induction before with
  | nil =>
    rw [List.nil_append, List.mapM_cons, failed]
    rfl
  | cons first rest ih =>
    obtain ⟨⟨result, read⟩, fine⟩ := List.forall_mem_cons.mp fine
    rw [List.cons_append, List.mapM_cons, read, ih fine]
    rfl

end

namespace Store

variable {store : Store} {root : String} {id : ObjectId} {object : CommitObject} {text : CommitText}

/-- What is told of a commit with a text, once it has a date. -/
def recordOf (id : ObjectId) (text : CommitText) (date : String) : LogRecord where
  hash := id
  name := Text.decodeUtf8OrEmpty text.committer.name
  email := Text.decodeUtf8OrEmpty text.committer.email
  date := date
  subject := Text.decodeUtf8OrEmpty (Message.summary text.message)
  body := Text.decodeUtf8OrEmpty (Message.body text.message)

/-- Of a commit that has a text, nothing but its date can fail. -/
theorem read_eq (readable : store.readCommit id = .ok (object, text)) :
    store.read root id = (isoStrict text.committer.seconds text.committer.offset).map
      fun date => Commit.ofRecord root (recordOf id text date) := by
  rw [read, readable]
  dsimp only [bind, Except.bind, Except.mapError]
  rw [record]
  cases isoStrict text.committer.seconds text.committer.offset <;> rfl

/-- A commit as it is told from a text. -/
structure ReadFrom (store : Store) (root : String) (text : CommitText) (commit : Commit) :
    Prop where
  readable : ∃ object, store.readCommit commit.hash = .ok (object, text)
  dated : isoStrict text.committer.seconds text.committer.offset = .ok commit.date
  told : commit = Commit.ofRecord root (recordOf commit.hash text commit.date)

theorem exists_readFrom {commit : Commit} (read : store.read root id = .ok commit) :
    ∃ text, store.ReadFrom root text commit := by
  cases readable : store.readCommit id with
  | error fault =>
    rw [Store.read, readable] at read
    cases read
  | ok found =>
    obtain ⟨object, text⟩ := found
    rw [read_eq readable] at read
    cases dated : isoStrict text.committer.seconds text.committer.offset with
    | error error =>
      rw [dated] at read
      cases read
    | ok date =>
      rw [dated] at read
      cases read
      exact ⟨text, ⟨object, readable⟩, dated, rfl⟩

end Store

namespace InProcess

variable {world : World} {caller : Caller} {root : RawPath}

theorem ok_of_opened {α : Type} {store : Store} {next : Store → Except GitError α} {result : α}
    (opened : openStore world root = .ok store)
    (done : unlessCancelled caller (openStore world root >>= next) = .ok result) :
    next store = .ok result := by
  rw [unlessCancelled, opened] at done
  split at done
  · cases done
  · exact done

theorem commitByReference_eq {reference : String} {store : Store}
    (opened : openStore world root = .ok store) (live : caller.cancelled = false) :
    commitByReference world caller root reference =
      store.commitByReference root.shown reference := by
  rw [commitByReference, unlessCancelled, live, if_neg Bool.false_ne_true, opened]
  rfl

theorem commitByReference_of_text {reference : String} {store : Store} {id : ObjectId}
    {object : CommitObject} {text : CommitText} (opened : openStore world root = .ok store)
    (live : caller.cancelled = false) (resolved : store.resolve reference = .ok id)
    (readable : store.readCommit id = .ok (object, text)) :
    commitByReference world caller root reference =
      (isoStrict text.committer.seconds text.committer.offset).map
        fun date => Commit.ofRecord root.shown (Store.recordOf id text date) := by
  rw [commitByReference_eq opened live, Store.commitByReference, resolved]
  exact Store.read_eq readable

/-- All that a query for a range hands out has been read from the repository. -/
theorem commitsForRange_readFrom {request : Request} {store : Store} {commits : List Commit}
    (opened : openStore world root = .ok store)
    (handed : commitsForRange world caller root request = .ok commits) :
    ∀ commit ∈ commits, ∃ text, store.ReadFrom root.shown text commit := by
  have done := ok_of_opened opened handed
  rw [Store.commitsForRange] at done
  cases range : store.range (RevisionRange.resolve request.branchRef request.oldest request.newest)
      request.count.toNat with
  | error error =>
    rw [range] at done
    cases done
  | ok ids =>
    rw [range] at done
    intro commit member
    obtain ⟨id, read⟩ := exists_read_of_mapM done commit member
    exact Store.exists_readFrom read

theorem commitByReference_readFrom {reference : String} {store : Store} {commit : Commit}
    (opened : openStore world root = .ok store)
    (handed : commitByReference world caller root reference = .ok commit) :
    ∃ text, store.ReadFrom root.shown text commit := by
  have done := ok_of_opened opened handed
  rw [Store.commitByReference] at done
  cases resolved : store.resolve reference with
  | error error =>
    rw [resolved] at done
    cases done
  | ok id =>
    rw [resolved] at done
    exact Store.exists_readFrom done

end InProcess

end GitHistory
