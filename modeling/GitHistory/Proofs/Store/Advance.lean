import GitHistory.Proofs.Store.Walk

/-! What a walk has taken when it ends. Each turn takes a commit out of the queue and expands it
once, so the turns suffice for the queue to empty or for patience to end. -/
namespace GitHistory.Store

variable {store : Store} {walk after : Walk} {tip id : ObjectId} {hidden : Option ObjectId}
  {queue later ids rest done taken : List ObjectId} {last : Int} {turns left : Nat}

/-- Parents are received one after the other. -/
theorem Underway.receive_all (sound : store.Sound)
    (state : store.Underway tip hidden walk queue taken) (spread : store.Spread walk done)
    (within : done ⊆ walk.seen) (behindHidden : Bool)
    (origin : ∀ id ∈ ids, store.IsCommit id ∧
      if behindHidden = true then store.Behind hidden id else store.Reaches tip id) :
    ∃ after later, ids.foldlM (store.receive behindHidden) (walk, queue) = .ok (after, later) ∧
      store.Received behindHidden ids walk after queue later ∧
      store.Underway tip hidden after later taken ∧ store.Spread after done := by
  induction ids generalizing walk queue with
  | nil => exact ⟨walk, queue, rfl, .none, state, spread⟩
  | cons id rest ih =>
    obtain ⟨known, start⟩ := origin id List.mem_cons_self
    have restOrigin := fun other member => origin other (List.mem_cons_of_mem id member)
    have first : ∃ middle between, store.receive behindHidden (walk, queue) id =
        .ok (middle, between) ∧ store.Received behindHidden [id] walk middle queue between ∧
        store.Underway tip hidden middle between taken ∧ store.Spread middle done := by
      cases behindHidden with
      | false => exact state.receive_visible sound spread known start
      | true => exact state.receive_hidden sound spread within known start
    obtain ⟨middle, between, here, received, midway, midSpread⟩ := first
    obtain ⟨after, later, further, restReceived, ends, endSpread⟩ :=
      ih midway midSpread (List.Subset.trans within received.seen) restOrigin
    refine ⟨after, later, ?_, received.cons restReceived, ends, endSpread⟩
    rw [List.foldlM_cons, here]
    exact further

/-- Links to parents of an object. -/
def sizeOfObject : Object → Nat
  | .commit commit => commit.parents.length
  | _ => 0

/-- Links of commits that are not expanded yet. -/
def openLinks (store : Store) (expanded : List ObjectId) : Nat :=
  outstanding sizeOfObject store.objects expanded

theorem openLinks_le (expanded : List ObjectId) : store.openLinks expanded ≤ store.linkCount := by
  have sum : store.linkCount = 0 + outstanding sizeOfObject store.objects [] := by
    rw [← foldl_add_size sizeOfObject store.objects 0, linkCount]
    congr
    funext count entry
    cases entry.2 <;> rfl
  have atMost : store.openLinks expanded ≤ outstanding sizeOfObject store.objects [] :=
    outstanding_le_nil
  omega

theorem openLinks_cons_add_le (known : store.IsCommit id) {expanded : List ObjectId}
    (fresh : id ∉ expanded) :
    store.openLinks (id :: expanded) + (store.parents id).length ≤ store.openLinks expanded := by
  obtain ⟨commit, found⟩ := isCommit_iff.mp known
  have parents : (store.parents id).length = sizeOfObject (.commit commit) := by
    rw [Store.parents, commit?, found]
    rfl
  rw [parents]
  exact outstanding_cons_add_le found fresh

/-- What expanding a commit that left the queue does. -/
structure Expanded (store : Store) (tip : ObjectId) (hidden : Option ObjectId) (id : ObjectId)
    (walk after : Walk) (rest later taken : List ObjectId) : Prop where
  state : store.Underway tip hidden after later
    (if id ∈ walk.hidden then taken else taken ++ [id])
  spread : store.Spread after after.expanded
  seen : walk.seen ⊆ after.seen
  grows : walk.hidden ⊆ after.hidden
  untouched : id ∈ after.hidden → id ∈ walk.hidden
  sorted : store.Sorted rest → store.Sorted later
  members : ∀ other ∈ later, other ∈ store.parents id ∨ other ∈ rest
  cost : later.length + store.openLinks after.expanded ≤
    rest.length + store.openLinks walk.expanded

/-- A commit that leaves the queue a second time is hidden and changes nothing. -/
theorem Underway.expand_again (state : store.Underway tip hidden walk (id :: rest) taken)
    (spread : store.Spread walk walk.expanded) (again : id ∈ walk.expanded) :
    store.expand walk id rest = .ok (walk, rest) ∧
      store.Expanded tip hidden id walk walk rest rest taken := by
  have contained : walk.expanded.contains id = true := List.contains_iff_mem.mpr again
  have isHidden : id ∈ walk.hidden := by
    apply Classical.byContradiction
    intro visible
    exact (state.visible id List.mem_cons_self visible).1 again
  have inQueue : ∀ other ∈ rest, other ∈ id :: rest := fun other member =>
    List.mem_cons_of_mem id member
  refine ⟨by rw [expand, if_pos contained], ?_, spread, List.Subset.refl _, List.Subset.refl _,
    fun now => now, fun sorted => sorted, fun _ member => Or.inr member, Nat.le_refl _⟩
  rw [if_pos isHidden]
  refine { state with queued := ?_, waiting := ?_, visible := ?_, once := ?_ }
  · exact fun other member => state.queued other (inQueue other member)
  · intro other member
    rcases state.waiting other member with isExpanded | waits
    · exact Or.inl isExpanded
    · rcases List.mem_cons.mp waits with same | inRest
      · exact Or.inl (same ▸ again)
      · exact Or.inr inRest
  · exact fun other member => state.visible other (inQueue other member)
  · intro other visible
    exact Nat.le_trans (List.count_le_count_cons) (state.once other visible)

/-- A commit that leaves the queue for the first time is taken, unless it is hidden. -/
theorem Underway.leave (state : store.Underway tip hidden walk (id :: rest) taken)
    (fresh : id ∉ walk.expanded) :
    store.Underway tip hidden { walk with expanded := id :: walk.expanded } rest
      (if id ∈ walk.hidden then taken else taken ++ [id]) := by
  have inQueue : ∀ other ∈ rest, other ∈ id :: rest := fun other member =>
    List.mem_cons_of_mem id member
  have kept : ∀ other ∈ taken, other ∈ if id ∈ walk.hidden then taken else taken ++ [id] := by
    intro other member
    split
    · exact member
    · exact List.mem_append_left _ member
  refine { state with
    queued := ?_, expanded := ?_, waiting := ?_, visible := ?_, once := ?_, accounted := ?_,
    reached := ?_, nodup := ?_ }
  · exact fun other member => state.queued other (inQueue other member)
  · intro other member
    rcases List.mem_cons.mp member with same | old
    · exact same ▸ state.queued id List.mem_cons_self
    · exact state.expanded other old
  · intro other member
    rcases state.waiting other member with isExpanded | waits
    · exact Or.inl (List.mem_cons_of_mem id isExpanded)
    · exact (List.mem_cons.mp waits).imp_left fun same => List.mem_cons.mpr (Or.inl same)
  · intro other member visible
    obtain ⟨notExpanded, fromTip⟩ := state.visible other (inQueue other member) visible
    refine ⟨?_, fromTip⟩
    intro isExpanded
    rcases List.mem_cons.mp isExpanded with same | old
    · subst same
      have once := state.once other visible
      have waits := List.count_pos_iff.mpr member
      rw [List.count_cons_self] at once
      omega
    · exact notExpanded old
  · intro other visible
    exact Nat.le_trans (List.count_le_count_cons) (state.once other visible)
  · intro other member
    rcases List.mem_cons.mp member with same | old
    · by_cases isHidden : id ∈ walk.hidden
      · exact Or.inl (same ▸ isHidden)
      · rw [if_neg isHidden]
        exact Or.inr (List.mem_append_right _ (List.mem_singleton.mpr same))
    · exact (state.accounted other old).imp_right (kept other)
  · intro other member
    split at member
    · obtain ⟨isExpanded, fromTip⟩ := state.reached other member
      exact ⟨List.mem_cons_of_mem id isExpanded, fromTip⟩
    · rename_i visible
      rcases List.mem_append.mp member with old | same
      · obtain ⟨isExpanded, fromTip⟩ := state.reached other old
        exact ⟨List.mem_cons_of_mem id isExpanded, fromTip⟩
      · rw [List.mem_singleton.mp same]
        exact ⟨List.mem_cons_self, (state.visible id List.mem_cons_self visible).2⟩
  · split
    · exact state.nodup
    · refine List.nodup_append.mpr ⟨state.nodup, List.pairwise_singleton _ id, ?_⟩
      intro other member same isId equal
      rw [List.mem_singleton.mp isId] at equal
      exact fresh (equal ▸ (state.reached other member).1)

/-- Expanding a commit that left the queue succeeds, and spreads what is known of it to its
parents. -/
theorem Underway.expand (sound : store.Sound)
    (state : store.Underway tip hidden walk (id :: rest) taken)
    (spread : store.Spread walk walk.expanded) :
    ∃ after later, store.expand walk id rest = .ok (after, later) ∧
      store.Expanded tip hidden id walk after rest later taken := by
  by_cases again : id ∈ walk.expanded
  · exact ⟨walk, rest, state.expand_again spread again⟩
  · have isSeen := state.queued id List.mem_cons_self
    have known := (state.commits id isSeen).1
    have parents : walk.parents id = store.parents id := state.knows.parents_eq isSeen
    have origin : ∀ parent ∈ store.parents id, store.IsCommit parent ∧
        if walk.isHidden id = true then store.Behind hidden parent
        else store.Reaches tip parent := by
      intro parent above
      refine ⟨sound.closed id parent above, ?_⟩
      split
      · rename_i isHidden
        exact (state.behind id (Walk.isHidden_iff.mp isHidden)).reaches (.single above)
      · rename_i visible
        have fromTip := (state.visible id List.mem_cons_self fun isHidden =>
          visible (Walk.isHidden_iff.mpr isHidden)).2
        exact fromTip.trans (.single above)
    obtain ⟨after, later, all, received, ends, endSpread⟩ :=
      (state.leave again).receive_all sound spread state.expanded (walk.isHidden id) origin
    have expanded : store.expand walk id rest = .ok (after, later) := by
      have absent : ¬ walk.expanded.contains id = true := fun contained =>
        again (List.contains_iff_mem.mp contained)
      rw [← parents] at all
      rw [Store.expand, if_neg absent]
      exact all
    have untouched : id ∈ after.hidden → id ∈ walk.hidden := by
      intro now
      cases isHidden : walk.isHidden id with
      | true => exact Walk.isHidden_iff.mp isHidden
      | false => exact received.untouched isHidden ▸ now
    refine ⟨after, later, expanded, ends, ?_, received.seen, received.hidden, untouched,
      received.joined.sorted, received.joined.members, ?_⟩
    · rw [received.expanded]
      intro other isDone
      rcases List.mem_cons.mp isDone with same | old
      · intro parent above
        obtain ⟨arrived, isHidden⟩ := received.arrived parent (same ▸ above)
        refine ⟨arrived, fun now => isHidden (Walk.isHidden_iff.mpr ?_)⟩
        exact untouched (same ▸ now)
      · exact endSpread other old
    · have length := received.joined.length
      have counted := openLinks_cons_add_le known again
      rw [received.expanded]
      dsimp only
      omega

/-- Hiding what lies behind a hidden commit. -/
theorem Underway.hideBehind (state : store.Underway tip hidden walk queue taken)
    (spread : store.Spread walk done) (within : done ⊆ walk.seen) (isHidden : id ∈ walk.hidden) :
    store.Underway tip hidden (walk.hideBehind id) queue taken ∧
      store.Spread (walk.hideBehind id) done := by
  have grows := walk.hidden_subset_hideBehind id
  have behind := state.knows.behind_hideBehind (state.behind id isHidden) state.behind
  refine ⟨state.hiding (Walk.links_hideBehind walk id) (Walk.seen_hideBehind walk id)
    (Walk.expanded_hideBehind walk id) grows behind, ?_⟩
  intro other isDone parent above
  obtain ⟨isSeen, old⟩ := spread other isDone parent above
  rw [Walk.seen_hideBehind]
  exact ⟨isSeen, state.knows.parent_hidden (within isDone) above fun before => Or.inr (old before)⟩

/-! Times. -/

/-- The times of a walk through a history without skew. Behind its first commit, which is hidden or
the newest, the queue is sorted; nothing in it is newer than the last commit taken, and nothing
that was taken is older. -/
structure Timely (store : Store) (walk : Walk) (queue taken : List ObjectId) (last : Int) :
    Prop where
  behindFirst : ∀ first rest, queue = first :: rest → store.Sorted rest ∧
    (first ∉ walk.hidden → ∀ other ∈ rest, store.seconds other ≤ store.seconds first)
  notNewer : ∀ id ∈ queue, store.seconds id ≤ last
  notOlder : ∀ id ∈ taken, last ≤ store.seconds id

theorem Timely.of_sorted (sorted : store.Sorted queue)
    (notNewer : ∀ id ∈ queue, store.seconds id ≤ last)
    (notOlder : ∀ id ∈ taken, last ≤ store.seconds id) :
    store.Timely walk queue taken last := by
  refine ⟨?_, notNewer, notOlder⟩
  rintro first rest rfl
  obtain ⟨newest, restSorted⟩ := List.pairwise_cons.mp sorted
  exact ⟨restSorted, fun _ => newest⟩

theorem Timely.step_hidden (timely : store.Timely walk (id :: rest) taken last)
    (older : ∀ parent ∈ store.parents id, store.seconds parent ≤ store.seconds id)
    (expanded : store.Expanded tip hidden id walk after rest later taken) :
    store.Sorted later ∧ ∀ other ∈ later, store.seconds other ≤ last := by
  refine ⟨expanded.sorted (timely.behindFirst id rest rfl).1, ?_⟩
  intro other member
  rcases expanded.members other member with above | inRest
  · exact Int.le_trans (older other above) (timely.notNewer id List.mem_cons_self)
  · exact timely.notNewer other (List.mem_cons_of_mem id inRest)

theorem Timely.step_visible (timely : store.Timely walk (id :: rest) taken last)
    (older : ∀ parent ∈ store.parents id, store.seconds parent ≤ store.seconds id)
    (expanded : store.Expanded tip hidden id walk after rest later taken)
    (visible : id ∉ walk.hidden) :
    store.Timely after later (taken ++ [id]) (store.seconds id) := by
  obtain ⟨restSorted, newest⟩ := timely.behindFirst id rest rfl
  refine Timely.of_sorted (expanded.sorted restSorted) ?_ ?_
  · intro other member
    rcases expanded.members other member with above | inRest
    · exact older other above
    · exact newest visible other inRest
  · intro other member
    rcases List.mem_append.mp member with before | same
    · exact Int.le_trans (timely.notNewer id List.mem_cons_self) (timely.notOlder other before)
    · obtain rfl := List.mem_singleton.mp same
      exact Int.le_refl _

/-! The run. -/

/-- The end of a walk: nothing but hidden commits waits, and in a history without skew they are
older than all that was taken. -/
structure Ended (store : Store) (tip : ObjectId) (hidden : Option ObjectId) (walk after : Walk)
    (rest taken : List ObjectId) : Prop where
  state : store.Underway tip hidden after rest taken
  spread : store.Spread after after.expanded
  seen : walk.seen ⊆ after.seen
  grows : walk.hidden ⊆ after.hidden
  allHidden : ∀ id ∈ rest, id ∈ after.hidden
  older : store.Chronological tip hidden → ∃ last, (∀ id ∈ rest, store.seconds id < last) ∧
    ∀ id ∈ taken, last ≤ store.seconds id

theorem Ended.of_empty (state : store.Underway tip hidden walk [] taken)
    (spread : store.Spread walk walk.expanded)
    (timely : store.Chronological tip hidden → store.Timely walk [] taken last) :
    store.Ended tip hidden walk walk [] taken :=
  ⟨state, spread, List.Subset.refl _, List.Subset.refl _, (fun _ member => nomatch member),
    fun steady => ⟨last, (fun _ member => nomatch member), (timely steady).notOlder⟩⟩

theorem Ended.since {middle : Walk} (ended : store.Ended tip hidden middle after rest taken)
    (seen : walk.seen ⊆ middle.seen) (grows : walk.hidden ⊆ middle.hidden) :
    store.Ended tip hidden walk after rest taken :=
  { ended with
    seen := List.Subset.trans seen ended.seen
    grows := List.Subset.trans grows ended.grows }

/-- When patience ends, the hidden commits that wait are older than the last one taken. -/
theorem Ended.of_patience (state : store.Underway tip hidden walk queue taken)
    (spread : store.Spread walk walk.expanded)
    (spent : walk.patienceLeft last left queue = 0)
    (timely : store.Chronological tip hidden → store.Sorted queue ∧
      ∀ id ∈ taken, last ≤ store.seconds id) :
    store.Ended tip hidden walk walk queue taken := by
  obtain ⟨allHidden, firstOlder⟩ := Walk.patienceLeft_eq_zero spent
  refine ⟨state, spread, List.Subset.refl _, List.Subset.refl _,
    fun other member => (allHidden other member).1, ?_⟩
  intro steady
  obtain ⟨sorted, notOlder⟩ := timely steady
  refine ⟨last, ?_, notOlder⟩
  intro other member
  cases queue with
  | nil => cases member
  | cons first rest =>
    have before := firstOlder first rest rfl
    rw [state.knows.time_eq (state.queued first List.mem_cons_self)] at before
    rcases List.mem_cons.mp member with same | inRest
    · exact same ▸ before
    · exact Int.lt_of_le_of_lt ((List.pairwise_cons.mp sorted).1 other inRest) before

/-- A walk ends, and what it takes comes behind what it took before. By induction on the turns,
which are enough for the queue and for the parents of all that is not expanded. -/
theorem Underway.advance (sound : store.Sound)
    (state : store.Underway tip hidden walk queue taken)
    (spread : store.Spread walk walk.expanded)
    (timely : store.Chronological tip hidden → store.Timely walk queue taken last)
    (enough : queue.length + store.openLinks walk.expanded ≤ turns) :
    ∃ after more rest, store.advance last left turns walk queue = .ok (after, more) ∧
      store.Ended tip hidden walk after rest (taken ++ more) := by
  induction turns generalizing walk queue taken last left with
  | zero =>
    have empty : queue = [] := List.length_eq_zero_iff.mp (by omega)
    subst empty
    refine ⟨walk, [], [], by rw [Store.advance], ?_⟩
    rw [List.append_nil]
    exact .of_empty state spread timely
  | succ turns ih =>
    cases queue with
    | nil =>
      refine ⟨walk, [], [], rfl, ?_⟩
      rw [List.append_nil]
      exact .of_empty state spread timely
    | cons id rest =>
      have onTheWay := (state.commits id (state.queued id List.mem_cons_self)).2
      obtain ⟨after, later, step, expanded⟩ := state.expand sound spread
      have cost := expanded.cost
      rw [List.length_cons] at enough
      rw [Store.advance, step]
      dsimp only [bind, Except.bind]
      by_cases isHidden : id ∈ after.hidden
      · have before := expanded.untouched isHidden
        have midway := expanded.state
        rw [if_pos before] at midway
        obtain ⟨buried, buriedSpread⟩ :=
          midway.hideBehind expanded.spread midway.expanded isHidden
        have grows := List.Subset.trans expanded.grows (after.hidden_subset_hideBehind id)
        have seen : walk.seen ⊆ (after.hideBehind id).seen := by
          rw [Walk.seen_hideBehind]
          exact expanded.seen
        rw [← Walk.expanded_hideBehind after id] at buriedSpread cost
        rw [if_pos (Walk.isHidden_iff.mpr isHidden)]
        split
        · rename_i spent
          refine ⟨_, [], later, rfl, ?_⟩
          rw [List.append_nil]
          refine (Ended.of_patience buried buriedSpread spent ?_).since seen grows
          intro steady
          exact ⟨((timely steady).step_hidden (steady id onTheWay) expanded).1,
            (timely steady).notOlder⟩
        · have laterTimely : store.Chronological tip hidden →
              store.Timely (after.hideBehind id) later taken last := by
            intro steady
            obtain ⟨sorted, notNewer⟩ := (timely steady).step_hidden (steady id onTheWay) expanded
            exact .of_sorted sorted notNewer (timely steady).notOlder
          obtain ⟨ends, more, waits, run, ended⟩ :=
            ih buried buriedSpread laterTimely (by omega)
          exact ⟨ends, more, waits, run, ended.since seen grows⟩
      · have visible : id ∉ walk.hidden := fun old => isHidden (expanded.grows old)
        have midway := expanded.state
        rw [if_neg visible] at midway
        have time : after.time id = store.seconds id :=
          midway.knows.time_eq (expanded.seen (state.queued id List.mem_cons_self))
        have laterTimely : store.Chronological tip hidden →
            store.Timely after later (taken ++ [id]) (store.seconds id) := fun steady =>
          (timely steady).step_visible (steady id onTheWay) expanded visible
        obtain ⟨ends, more, waits, run, ended⟩ :=
          ih midway expanded.spread laterTimely (by omega)
        rw [if_neg fun now => isHidden (Walk.isHidden_iff.mp now), time, run]
        refine ⟨ends, id :: more, waits, rfl, ?_⟩
        rw [List.append_assoc, List.singleton_append] at ended
        exact ended.since expanded.seen expanded.grows

end GitHistory.Store
