import GitHistory.Proofs.InProcess.Opened
import GitHistory.Proofs.Store.History

/-! The commits that a history query hands out in-process. There is one history for all counts, of
which a query gets the beginning. -/
namespace GitHistory

namespace Store

variable {store : Store} {id parent : ObjectId} {rest : List ObjectId} {oldest root : String}

theorem hidden_root (resolved : store.resolve oldest = .ok id) (isRoot : store.parents id = []) :
    store.hidden (some oldest) = .error (.notFound (oldest ++ "^")) := by
  rw [hidden]
  dsimp only [bind, Except.bind]
  rw [resolved]
  dsimp only
  rw [isRoot]
  rfl

/-- A list of ids is read as a whole if each of them is. -/
theorem mapM_read_of_each {ids : List ObjectId}
    (each : ∀ id ∈ ids, ∃ commit, store.read root id = .ok commit ∧ commit.hash = id) :
    ∃ commits, ids.mapM (store.read root) = .ok commits ∧ commits.map Commit.hash = ids ∧
      ∀ commit ∈ commits, store.read root commit.hash = .ok commit := by
  induction ids with
  | nil => exact ⟨[], rfl, rfl, fun _ member => nomatch member⟩
  | cons id rest ih =>
    obtain ⟨⟨commit, read, rfl⟩, others⟩ := List.forall_mem_cons.mp each
    obtain ⟨commits, all, hashes, again⟩ := ih others
    refine ⟨commit :: commits, ?_, ?_, List.forall_mem_cons.mpr ⟨read, again⟩⟩
    · rw [List.mapM_cons, read, all]
      rfl
    · rw [List.map_cons, hashes]

namespace Sound

/-- What is hidden is the boundary's first parent. -/
theorem hidden_parent (sound : store.Sound) (resolved : store.resolve oldest = .ok id)
    (parents : store.parents id = parent :: rest) :
    store.hidden (some oldest) = .ok (some parent) := by
  have known : store.IsCommit parent := by
    apply sound.closed id
    rw [parents]
    exact List.mem_cons_self
  rw [hidden]
  dsimp only [bind, Except.bind]
  rw [resolved]
  dsimp only
  rw [parents]
  dsimp only
  have committish := sound.committish_ok known
  dsimp only [bind, Except.bind] at committish
  rw [committish]
  rfl

theorem mapM_read_ok (sound : store.Sound) (root : String) {ids : List ObjectId}
    (known : ∀ id ∈ ids, store.IsCommit id) :
    ∃ commits, ids.mapM (store.read root) = .ok commits ∧ commits.map Commit.hash = ids ∧
      ∀ commit ∈ commits, store.read root commit.hash = .ok commit :=
  mapM_read_of_each fun id member => sound.read_ok (known id member) root

end Sound

end Store

/-- The range that a request asks for. -/
def Request.range (request : Request) : RevisionRange :=
  RevisionRange.resolve request.branchRef request.oldest request.newest

/-- One history that every query for a range gets the beginning of. -/
def HandsOut (world : World) (caller : Caller) (root : RawPath) (request : Request)
    (store : Store) (tip : ObjectId) (hidden : Option ObjectId) : Prop :=
  ∃ history, store.Selects tip hidden history ∧ ∀ count : UInt64, ∃ commits,
    InProcess.commitsForRange world caller root { request with count := count } = .ok commits ∧
    commits.map Commit.hash = history.take count.toNat ∧
    ∀ commit ∈ commits, store.read root.shown commit.hash = .ok commit

namespace Store

/-- The id of forty equal digits. -/
def idOf (digit : Char) : ObjectId := String.ofList (List.replicate 40 digit)

/-- Objects that are known by ids of equal digits. -/
def byDigit (objects : List (Char × Object)) : List (ObjectId × Object) :=
  objects.map fun entry => (idOf entry.1, entry.2)

theorem full_byDigit {objects : List (Char × Object)}
    (digits : ∀ entry ∈ objects, entry.1 ∈ ObjectId.alphabet) :
    ∀ entry ∈ byDigit objects, ObjectId.IsFull entry.1 := by
  intro entry member
  obtain ⟨⟨digit, object⟩, listed, rfl⟩ := List.mem_map.mp member
  have text : (idOf digit).toList = List.replicate 40 digit := String.toList_ofList
  refine ⟨?_, fun c inText => ?_⟩
  · rw [text, List.length_replicate]
  · rw [text] at inText
    rw [List.eq_of_mem_replicate inText]
    exact digits _ listed

/-- A commit with nothing but parents and a time. -/
def bare (parents : List Char) (seconds : String) : Object :=
  .commit ⟨parents.map idOf, Text.utf8 ("A <a> " ++ seconds ++ " +0000").toList, [], []⟩

/-- Two commits with one parent, and a merge of them. -/
def merged : Store where
  objects := byDigit [
    ('0', bare [] "1700000000"),
    ('a', bare ['0'] "1700000000"),
    ('b', bare ['0'] "1700000000"),
    ('c', bare ['a', 'b'] "1700000000")]
  references := [("refs/heads/main", idOf 'c'), ("refs/heads/side", idOf 'a')]
  head := .symbolic "refs/heads/main"
  remotes := []
  full := full_byDigit (by decide)

/-- A commit from the future, ten old ones on top of it, and a merge of it with the last of them
and one more in between. -/
def skewed : Store where
  objects := byDigit [
    ('0', bare [] "2000000000"),
    ('1', bare ['0'] "1000000001"),
    ('2', bare ['1'] "1000000002"),
    ('3', bare ['2'] "1000000003"),
    ('4', bare ['3'] "1000000004"),
    ('5', bare ['4'] "1000000005"),
    ('6', bare ['5'] "1000000006"),
    ('7', bare ['6'] "1000000007"),
    ('8', bare ['7'] "1000000008"),
    ('9', bare ['8'] "1000000009"),
    ('a', bare ['9'] "1000000010"),
    ('b', bare ['a'] "1500000000"),
    ('c', bare ['b', '0'] "2100000000")]
  references := [("refs/heads/main", idOf 'c'), ("refs/heads/old", idOf 'b')]
  head := .symbolic "refs/heads/main"
  remotes := []
  full := full_byDigit (by decide)

end Store

namespace InProcess

variable {world : World} {caller : Caller} {root : RawPath} {request : Request} {store : Store}
  {tip : ObjectId} {hidden : Option ObjectId}

theorem commitsForRange_eq (opened : openStore world root = .ok store)
    (live : caller.cancelled = false) :
    commitsForRange world caller root request =
      store.commitsForRange root.shown request.range request.count.toNat := by
  rw [commitsForRange, unlessCancelled, live, if_neg Bool.false_ne_true, opened]
  rfl

theorem handsOut (sound : store.Sound) (opened : openStore world root = .ok store)
    (live : caller.cancelled = false)
    (resolved : store.resolve request.range.tip = .ok tip)
    (hides : store.hidden request.range.boundary? = .ok hidden)
    (hiddenKnown : ∀ id, hidden = some id → store.IsCommit id) :
    HandsOut world caller root request store tip hidden := by
  have known : store.IsCommit tip := (store.yields_resolve _).gives tip resolved
  obtain ⟨history, walked, selects⟩ := sound.history_selects known hiddenKnown
  refine ⟨history, selects, ?_⟩
  intro count
  have range : store.range request.range count.toNat = .ok (history.take count.toNat) := by
    rw [Store.range, resolved]
    dsimp only [bind, Except.bind]
    rw [hides]
    dsimp only
    split
    · rename_i none
      rw [none]
      rfl
    · rw [walked]
      rfl
  have allKnown : ∀ id ∈ history.take count.toNat, store.IsCommit id := fun id member =>
    sound.isCommit known (selects.reached id (List.mem_of_mem_take member))
  obtain ⟨commits, all, hashes, each⟩ := sound.mapM_read_ok root.shown allKnown
  refine ⟨commits, ?_, hashes, each⟩
  have sameRange : Request.range { request with count := count } = request.range := rfl
  rw [commitsForRange_eq opened live, sameRange, Store.commitsForRange, range]
  exact all

/-- The commits of a range. Of a sound repository the query hands out the beginning of one history,
which is that of the tip without what the boundary's first parent reaches; a boundary without a
parent is a failure. -/
theorem commitsForRange_selects (sound : store.Sound) (opened : openStore world root = .ok store)
    (live : caller.cancelled = false)
    (resolved : store.resolve request.range.tip = .ok tip) :
    (request.range.boundary? = none → HandsOut world caller root request store tip none) ∧
    ∀ oldest boundary, request.range.boundary? = some oldest →
      store.resolve oldest = .ok boundary →
      match store.parents boundary with
      | [] => ∀ count : UInt64,
        commitsForRange world caller root { request with count := count } =
          .error (.notFound (oldest ++ "^"))
      | parent :: _ => HandsOut world caller root request store tip (some parent) := by
  constructor
  · intro unbounded
    apply handsOut sound opened live resolved
    · rw [unbounded]
      rfl
    · intro root same
      cases same
  · intro oldest boundary bounded boundaryResolved
    split
    · rename_i isRoot
      intro count
      have sameRange : Request.range { request with count := count } = request.range := rfl
      rw [commitsForRange_eq opened live, sameRange, Store.commitsForRange, Store.range, resolved,
        bounded]
      dsimp only [bind, Except.bind]
      rw [Store.hidden_root boundaryResolved isRoot]
    · rename_i parent rest parents
      apply handsOut sound opened live resolved
      · rw [bounded]
        exact sound.hidden_parent boundaryResolved parents
      · intro root same
        cases same
        apply sound.closed boundary
        rw [parents]
        exact List.mem_cons_self

/-- A commit on a branch that is the boundary, and another one that was merged with it. -/
theorem commitsForRange_selects_merged :
    (Store.merged.Sound ∧ openStore (World.ofStore .merged) "/repo" = .ok .merged ∧
      ({} : Caller).cancelled = false ∧ Store.merged.resolve "main" = .ok (Store.idOf 'c')) ∧
    HandsOut (World.ofStore .merged) {} "/repo" ⟨"main", "main", 10, some "side", none⟩ .merged
      (Store.idOf 'c') (some (Store.idOf '0')) := by
  have sound : Store.merged.Sound := .of_isOrderly rfl
  have opened := openStore_ofStore .merged
  have resolved : Store.merged.resolve "main" = .ok (Store.idOf 'c') := rfl
  have boundary : Store.merged.resolve "side" = .ok (Store.idOf 'a') := rfl
  refine ⟨⟨sound, opened, rfl, resolved⟩, ?_⟩
  have range : Request.range ⟨"main", "main", 10, some "side", none⟩ =
      .sinceOnBranch "side" "main" := rfl
  exact (commitsForRange_selects sound opened rfl (range ▸ resolved)).2 "side" _
    (range ▸ rfl) boundary

/-- A commit that the hidden one reaches, through ten that are older than it, is handed out. -/
theorem commitsForRange_leaves_range :
    Store.skewed.Sound ∧ openStore (World.ofStore .skewed) "/repo" = .ok .skewed ∧
    Store.skewed.resolve "main" = .ok (Store.idOf 'c') ∧
    Store.skewed.resolve "old" = .ok (Store.idOf 'b') ∧
    Store.skewed.parents (Store.idOf 'b') = [Store.idOf 'a'] ∧
    ∃ commits, commitsForRange (World.ofStore .skewed) {} "/repo"
        ⟨"main", "main", 20, some "old", none⟩ = .ok commits ∧
      Store.idOf '0' ∈ commits.map Commit.hash ∧
      ¬ Store.skewed.InRange (Store.idOf 'c') (some (Store.idOf 'a')) (Store.idOf '0') := by
  have sound : Store.skewed.Sound := .of_isOrderly rfl
  have range : Store.skewed.range (.sinceOnBranch "old" "main") 20 =
      .ok [Store.idOf 'c', Store.idOf '0', Store.idOf 'b'] := rfl
  have known : ∀ id ∈ [Store.idOf 'c', Store.idOf '0', Store.idOf 'b'],
      Store.skewed.IsCommit id := by
    simp only [List.forall_mem_cons]
    exact ⟨rfl, rfl, rfl, fun _ member => nomatch member⟩
  obtain ⟨commits, all, hashes, -⟩ := sound.mapM_read_ok "/repo" known
  have asked : Request.range ⟨"main", "main", 20, some "old", none⟩ =
      .sinceOnBranch "old" "main" := rfl
  have counted : (⟨"main", "main", 20, some "old", none⟩ : Request).count.toNat = 20 := rfl
  have up : ∀ {id parent last}, Store.skewed.parents id = [parent] →
      Store.skewed.Reaches parent last → Store.skewed.Reaches id last := fun parents further =>
    .parent (parents ▸ List.mem_cons_self) further
  refine ⟨sound, openStore_ofStore .skewed, rfl, rfl, rfl, commits, ?_, ?_, ?_⟩
  · rw [commitsForRange_eq (openStore_ofStore .skewed) rfl, asked, counted,
      Store.commitsForRange, range]
    dsimp only [bind, Except.bind]
    exact all
  · rw [hashes]
    exact List.mem_cons_of_mem _ List.mem_cons_self
  · rintro ⟨-, inRange⟩
    apply inRange
    refine ⟨Store.idOf 'a', rfl, ?_⟩
    iterate 10 refine up rfl ?_
    exact .here (Store.idOf '0')

end InProcess

end GitHistory
