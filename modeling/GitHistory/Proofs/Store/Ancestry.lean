import GitHistory.Proofs.Store.Resolved
import GitHistory.Store.Commit

/-! Ancestry in a repository in which every parent is there, every commit can be read and dated,
and none is its own ancestor. The range of a history query is what its tip reaches and the hidden
commit does not. -/
namespace GitHistory

theorem isoStrict_calendar {seconds minutes : Int} {date : String}
    (accepted : isoStrict seconds minutes = .ok date) : seconds ≤ Time.lastSecond := by
  rw [isoStrict] at accepted
  split at accepted
  · cases accepted
  · split at accepted
    · cases accepted
    · rename_i _ inside
      have inCalendar : Time.isInCalendar seconds = true := by
        simpa using fun outside => inside (Or.inr outside)
      rw [Time.isInCalendar, Bool.and_eq_true, decide_eq_true_eq, decide_eq_true_eq] at inCalendar
      exact inCalendar.2

/-- Whether a commit can be read and dated. -/
def CommitObject.isDated (commit : CommitObject) : Bool :=
  match commit.read with
  | .ok text =>
    match isoStrict text.committer.seconds text.committer.offset with
    | .ok _ => true
    | .error _ => false
  | .error _ => false

theorem CommitObject.dated_of_isDated {commit : CommitObject} (dated : commit.isDated = true) :
    ∃ text, commit.read = .ok text ∧
      ∃ date, isoStrict text.committer.seconds text.committer.offset = .ok date := by
  rw [isDated] at dated
  split at dated
  · rename_i text readable
    split at dated
    · rename_i date accepted
      exact ⟨text, readable, date, accepted⟩
    · cases dated
  · cases dated

namespace Store

variable {store : Store} {first middle last id parent tip : ObjectId} {hidden : Option ObjectId}

namespace Reaches

theorem single (up : parent ∈ store.parents id) : store.Reaches id parent :=
  .parent up (.here parent)

theorem trans (start : store.Reaches first middle) (rest : store.Reaches middle last) :
    store.Reaches first last := by
  induction start with
  | here => exact rest
  | parent up _ ih => exact .parent up (ih rest)

/-- A commit reaches another one by way of one of its parents. -/
theorem exists_parent (reaches : store.Reaches first last) (other : first ≠ last) :
    ∃ parent ∈ store.parents first, store.Reaches parent last := by
  cases reaches with
  | here => exact absurd rfl other
  | parent up further => exact ⟨_, up, further⟩

/-- A commit reaches another one by way of one of the other's children. -/
theorem exists_child (reaches : store.Reaches first last) (other : first ≠ last) :
    ∃ child, store.Reaches first child ∧ last ∈ store.parents child := by
  induction reaches with
  | here => exact absurd rfl other
  | @parent id next last up further ih =>
    by_cases direct : next = last
    · exact ⟨id, .here id, direct ▸ up⟩
    · obtain ⟨child, down, above⟩ := ih direct
      exact ⟨child, .parent up down, above⟩

end Reaches

/-- The time of a commit as a walk reads it. -/
def seconds (store : Store) (id : ObjectId) : Int :=
  match store.link id with
  | .ok link => link.time
  | .error _ => 0

/-- A repository in which all history is there and makes sense. -/
structure Sound (store : Store) : Prop where
  closed : ∀ id, ∀ parent ∈ store.parents id, store.IsCommit parent
  dated : ∀ id commit, store.commit? id = some commit → ∃ text, commit.read = .ok text ∧
    ∃ date, isoStrict text.committer.seconds text.committer.offset = .ok date
  acyclic : ∀ id, ∀ parent ∈ store.parents id, ¬ store.Reaches parent id

/-- What a hidden commit reaches. -/
def Behind (store : Store) (hidden : Option ObjectId) (id : ObjectId) : Prop :=
  ∃ root, hidden = some root ∧ store.Reaches root id

/-- What a tip reaches and a hidden commit does not. -/
def InRange (store : Store) (tip : ObjectId) (hidden : Option ObjectId) (id : ObjectId) : Prop :=
  store.Reaches tip id ∧ ¬ store.Behind hidden id

/-- What a tip or a hidden commit reaches. -/
def OnTheWay (store : Store) (tip : ObjectId) (hidden : Option ObjectId) (id : ObjectId) : Prop :=
  store.Reaches tip id ∨ store.Behind hidden id

/-- No commit on the way is older than one of its parents. -/
def Chronological (store : Store) (tip : ObjectId) (hidden : Option ObjectId) : Prop :=
  ∀ id, store.OnTheWay tip hidden id →
    ∀ parent ∈ store.parents id, store.seconds parent ≤ store.seconds id

theorem Behind.reaches (start : store.Behind hidden id) (further : store.Reaches id last) :
    store.Behind hidden last := by
  obtain ⟨root, isHidden, fromRoot⟩ := start
  exact ⟨root, isHidden, fromRoot.trans further⟩

theorem OnTheWay.reaches (start : store.OnTheWay tip hidden id) (further : store.Reaches id last) :
    store.OnTheWay tip hidden last := by
  rcases start with fromTip | behind
  · exact Or.inl (fromTip.trans further)
  · exact Or.inr (behind.reaches further)

/-- An ancestor is not newer, if there is no skew on the way. -/
theorem Chronological.seconds_le (steady : store.Chronological tip hidden)
    (start : store.OnTheWay tip hidden first) (reaches : store.Reaches first last) :
    store.seconds last ≤ store.seconds first := by
  induction reaches with
  | here => exact Int.le_refl _
  | @parent id next last up _ ih =>
    have older := steady id start next up
    exact Int.le_trans (ih (start.reaches (.single up))) older

/-- What stands between a tip and a commit of the range is in the range. -/
theorem InRange.between (range : store.InRange tip hidden last)
    (fromTip : store.Reaches tip middle) (further : store.Reaches middle last) :
    store.InRange tip hidden middle := by
  refine ⟨fromTip, ?_⟩
  intro behind
  exact range.2 (behind.reaches further)

namespace Sound

theorem isCommit (sound : store.Sound) (known : store.IsCommit first)
    (reaches : store.Reaches first last) : store.IsCommit last := by
  induction reaches with
  | here => exact known
  | parent up _ ih => exact ih (sound.closed _ _ up)

/-- Two commits that reach each other are the same. -/
theorem antisymm (sound : store.Sound) (down : store.Reaches first last)
    (up : store.Reaches last first) : first = last := by
  apply Classical.byContradiction
  intro other
  obtain ⟨parent, above, further⟩ := down.exists_parent other
  exact sound.acyclic first parent above (further.trans up)

/-- What a walk reads of a commit. -/
theorem link_eq (sound : store.Sound) (known : store.IsCommit id) :
    store.link id = .ok ⟨store.seconds id, store.parents id⟩ := by
  obtain ⟨commit, found⟩ := isCommit_iff.mp known
  have isCommit : store.commit? id = some commit := by rw [commit?, found]
  obtain ⟨text, readable, -⟩ := sound.dated id commit isCommit
  have link : store.link id = .ok ⟨text.committer.seconds, commit.parents⟩ := by
    rw [Store.link, found]
    dsimp only
    rw [readable]
    rfl
  rw [seconds, parents, isCommit, link]

theorem seconds_le_endOfTime (sound : store.Sound) (known : store.IsCommit id) :
    store.seconds id ≤ endOfTime := by
  obtain ⟨commit, found⟩ := isCommit_iff.mp known
  have isCommit : store.commit? id = some commit := by rw [commit?, found]
  obtain ⟨text, readable, date, accepted⟩ := sound.dated id commit isCommit
  have time : store.seconds id = text.committer.seconds := by
    rw [seconds, Store.link, found]
    dsimp only
    rw [readable]
    rfl
  have inCalendar := isoStrict_calendar accepted
  rw [Time.lastSecond] at inCalendar
  rw [time, endOfTime]
  omega

theorem load_ok (sound : store.Sound) (known : store.IsCommit id) :
    store.load id = .ok (.commit id) := by
  obtain ⟨commit, found⟩ := isCommit_iff.mp known
  have isCommit : store.commit? id = some commit := by rw [commit?, found]
  obtain ⟨text, readable, -⟩ := sound.dated id commit isCommit
  rw [load, found]
  dsimp only
  rw [readable]
  rfl

theorem committish_ok (sound : store.Sound) (known : store.IsCommit id) :
    store.load id >>= store.committish = .ok id := by
  have kind : (Target.commit id).kind = .commit := rfl
  rw [sound.load_ok known]
  dsimp only [bind, Except.bind]
  rw [committish, peelToCommit, peel, if_pos kind]
  rfl

/-- Every commit is handed out under its own id. -/
theorem read_ok (sound : store.Sound) (known : store.IsCommit id) (root : String) :
    ∃ commit, store.read root id = .ok commit ∧ commit.hash = id := by
  obtain ⟨commit, found⟩ := isCommit_iff.mp known
  have isCommit : store.commit? id = some commit := by rw [commit?, found]
  obtain ⟨text, readable, date, accepted⟩ := sound.dated id commit isCommit
  have loaded : store.loadAs .commit id = .ok (.commit id) :=
    IsReadable.loadAs_eq (sound.load_ok known)
  have read : store.readCommit id = .ok (commit, text) := by
    rw [readCommit, loaded, isCommit]
    dsimp only [bind, Except.bind]
    rw [readable]
    rfl
  rw [Store.read, read]
  dsimp only [bind, Except.bind, Except.mapError]
  rw [record, accepted]
  exact ⟨_, rfl, rfl⟩

end Sound

/-! A list of objects in which parents come first is checked by going through it once. -/

/-- Where an object is listed. -/
def place (store : Store) (id : ObjectId) : Nat :=
  store.objects.findIdx fun entry => entry.1 == id

/-- Whether every commit can be read and dated, and has parents that are listed before it. -/
def isOrderly (store : Store) : Bool :=
  store.objects.all fun entry =>
    match entry.2 with
    | .commit commit => commit.isDated && commit.parents.all fun parent =>
      (store.commit? parent).isSome && decide (store.place parent < store.place entry.1)
    | _ => true

theorem mem_objects {commit : CommitObject} (found : store.commit? id = some commit) :
    (id, .commit commit) ∈ store.objects := by
  rw [commit?] at found
  split at found
  · rename_i listed
    cases found
    obtain ⟨before, after, all, -⟩ := List.lookup_eq_some_iff.mp listed
    rw [all]
    exact List.mem_append_right before List.mem_cons_self
  · cases found

theorem Sound.of_isOrderly (orderly : store.isOrderly = true) : store.Sound := by
  have each : ∀ id commit, store.commit? id = some commit → commit.isDated = true ∧
      ∀ parent ∈ commit.parents, store.IsCommit parent ∧ store.place parent < store.place id := by
    intro id commit found
    have passed := List.all_eq_true.mp orderly _ (mem_objects found)
    dsimp only at passed
    rw [Bool.and_eq_true, List.all_eq_true] at passed
    refine ⟨passed.1, ?_⟩
    intro parent above
    have both := passed.2 parent above
    rw [Bool.and_eq_true, decide_eq_true_eq] at both
    exact both
  have parents : ∀ id, ∀ parent ∈ store.parents id,
      store.IsCommit parent ∧ store.place parent < store.place id := by
    intro id parent above
    rw [Store.parents] at above
    split at above
    · rename_i commit found
      exact (each id commit found).2 parent above
    · cases above
  have earlier : ∀ {first last}, store.Reaches first last →
      store.place last ≤ store.place first := by
    intro first last reaches
    induction reaches with
    | here => exact Nat.le_refl _
    | @parent id next last up _ ih =>
      have step := (parents id next up).2
      omega
  refine ⟨fun id parent above => (parents id parent above).1, ?_, ?_⟩
  · intro id commit found
    exact CommitObject.dated_of_isDated (each id commit found).1
  · intro id parent above cycle
    have step := (parents id parent above).2
    have back := earlier cycle
    omega

end Store

end GitHistory
