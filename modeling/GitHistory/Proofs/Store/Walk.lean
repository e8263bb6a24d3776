import GitHistory.Proofs.Store.Ancestry
import GitHistory.Proofs.Store.Hiding
import Mathlib.Data.List.Perm.Basic

/-! Walking back from a tip, away from a hidden commit. Whatever has been seen was expanded or
waits, what is not hidden waits once and gets taken, and what is hidden lies behind the hidden
commit. When nothing but hidden commits waits, all of the range has been taken; and if no commit
is older than one of its parents, then nothing else has. -/
namespace GitHistory

namespace Walk

variable {walk : Walk}

theorem enqueue_perm (id : ObjectId) (queue : List ObjectId) :
    (walk.enqueue id queue).Perm (id :: queue) := by
  induction queue with
  | nil => exact List.Perm.refl [id]
  | cons first rest ih =>
    rw [enqueue]
    split
    · exact List.Perm.refl _
    · exact (ih.cons first).trans (List.Perm.swap id first rest)

/-- Patience ends with nothing but hidden commits waiting, none of them newer than the last one
taken and the next one older. -/
theorem patienceLeft_eq_zero {last : Int} {left : Nat} {queue : List ObjectId}
    (spent : walk.patienceLeft last left queue = 0) :
    (∀ id ∈ queue, id ∈ walk.hidden ∧ walk.time id ≤ last) ∧
      ∀ first rest, queue = first :: rest → walk.time first < last := by
  cases queue with
  | nil =>
    exact ⟨(fun _ member => nomatch member), fun _ _ same => nomatch same⟩
  | cons first rest =>
    rw [patienceLeft] at spent
    split at spent
    · cases spent
    · rename_i older
      split at spent
      · cases spent
      · rename_i none
        refine ⟨?_, ?_⟩
        · intro id member
          rw [Bool.not_eq_true, List.any_eq_false] at none
          have nothing := none id member
          rw [Bool.or_eq_true, Bool.not_eq_true', decide_eq_true_eq, not_or, Bool.not_eq_false,
            isHidden_iff] at nothing
          exact ⟨nothing.1, Int.not_lt.mp nothing.2⟩
        · intro other others same
          cases same
          exact Int.not_le.mp older

end Walk

namespace Store

variable {store : Store} {walk after : Walk} {tip id : ObjectId} {hidden : Option ObjectId}
  {queue later ids seen done taken : List ObjectId}

/-! What a walk knows of the commits it has read. -/

/-- What was read is what has been seen, with the times and the parents of the repository. -/
def Knows (store : Store) (walk : Walk) (seen : List ObjectId) : Prop :=
  ∀ id, walk.links.lookup id =
    if id ∈ seen then some ⟨store.seconds id, store.parents id⟩ else none

theorem Knows.time_eq (knows : store.Knows walk seen) (member : id ∈ seen) :
    walk.time id = store.seconds id := by
  rw [Walk.time, knows id, if_pos member]
  rfl

theorem Knows.parents_eq (knows : store.Knows walk seen) (member : id ∈ seen) :
    walk.parents id = store.parents id := by
  rw [Walk.parents, knows id, if_pos member]
  rfl

theorem Knows.parents_subset (knows : store.Knows walk seen) (id : ObjectId) :
    walk.parents id ⊆ store.parents id := by
  by_cases member : id ∈ seen
  · rw [knows.parents_eq member]
    exact List.Subset.refl _
  · rw [Walk.parents, knows id, if_neg member]
    exact List.nil_subset _

theorem Knows.visit_seen (knows : store.Knows walk seen) (member : id ∈ seen) :
    store.visit walk id = .ok walk := by
  have present : (walk.links.lookup id).isSome = true := by
    rw [knows id, if_pos member]
    rfl
  rw [visit, if_pos present]

/-- Taking notice of a commit succeeds and adds it to what is known. -/
theorem Sound.visit_ok (sound : store.Sound) (knows : store.Knows walk seen)
    (known : store.IsCommit id) :
    ∃ links, store.visit walk id = .ok { walk with links := links } ∧
      store.Knows { walk with links := links } (id :: seen) := by
  by_cases member : id ∈ seen
  · refine ⟨walk.links, knows.visit_seen member, ?_⟩
    intro other
    have same : other ∈ id :: seen ↔ other ∈ seen := by
      rw [List.mem_cons, or_iff_right_of_imp]
      rintro rfl
      exact member
    rw [knows other]
    simp only [same]
  · have absent : ¬ (walk.links.lookup id).isSome = true := by
      rw [knows id, if_neg member]
      exact Bool.false_ne_true
    refine ⟨(id, ⟨store.seconds id, store.parents id⟩) :: walk.links, ?_, ?_⟩
    · rw [visit, if_neg absent, sound.link_eq known]
      rfl
    · intro other
      rw [List.lookup_cons]
      by_cases same : other = id
      · subst same
        simp
      · have different : (other == id) = false := beq_eq_false_iff_ne.mpr same
        simp only [different, knows other, List.mem_cons, same, false_or]

/-- Where commits that had been hidden have hidden parents, except the one that is hidden now, all
that are hidden afterwards have. -/
theorem Knows.parent_hidden (knows : store.Knows walk seen) {other parent : ObjectId}
    (member : other ∈ seen) (above : parent ∈ store.parents other)
    (before : other ∈ walk.hidden → other = id ∨ parent ∈ walk.hidden)
    (now : other ∈ (walk.hideBehind id).hidden) : parent ∈ (walk.hideBehind id).hidden := by
  obtain ⟨all, spread⟩ := walk.hideBehind_spec id
  rw [← knows.parents_eq member] at above
  by_cases old : other ∈ walk.hidden
  · rcases before old with same | parentOld
    · exact all (same ▸ above)
    · exact walk.hidden_subset_hideBehind id parentOld
  · exact spread other now old parent above

theorem Knows.behind_hideBehind (knows : store.Knows walk seen) (here : store.Behind hidden id)
    (old : ∀ other ∈ walk.hidden, store.Behind hidden other) :
    ∀ other ∈ (walk.hideBehind id).hidden, store.Behind hidden other := by
  refine Walk.hideBehind_inherits ?_ here old
  intro other behind parent above
  exact behind.reaches (.single (knows.parents_subset other above))

/-! What holds of a walk at any time. -/

/-- The state of a walk: what it knows, what waits in its queue, and what it has taken. -/
structure Underway (store : Store) (tip : ObjectId) (hidden : Option ObjectId) (walk : Walk)
    (queue taken : List ObjectId) : Prop where
  knows : store.Knows walk walk.seen
  commits : ∀ id ∈ walk.seen, store.IsCommit id ∧ store.OnTheWay tip hidden id
  queued : ∀ id ∈ queue, id ∈ walk.seen
  expanded : ∀ id ∈ walk.expanded, id ∈ walk.seen
  waiting : ∀ id ∈ walk.seen, id ∈ walk.expanded ∨ id ∈ queue
  visible : ∀ id ∈ queue, id ∉ walk.hidden → id ∉ walk.expanded ∧ store.Reaches tip id
  once : ∀ id, id ∉ walk.hidden → queue.count id ≤ 1
  behind : ∀ id ∈ walk.hidden, store.Behind hidden id
  accounted : ∀ id ∈ walk.expanded, id ∈ walk.hidden ∨ id ∈ taken
  reached : ∀ id ∈ taken, id ∈ walk.expanded ∧ store.Reaches tip id
  nodup : taken.Nodup

/-- The parents of commits that are done have been seen, and are hidden if they are. -/
def Spread (store : Store) (walk : Walk) (done : List ObjectId) : Prop :=
  ∀ id ∈ done, ∀ parent ∈ store.parents id,
    parent ∈ walk.seen ∧ (id ∈ walk.hidden → parent ∈ walk.hidden)

/-- Hiding more of what lies behind changes nothing else. -/
theorem Underway.hiding (state : store.Underway tip hidden walk queue taken)
    (links : after.links = walk.links) (seen : after.seen = walk.seen)
    (expanded : after.expanded = walk.expanded) (more : walk.hidden ⊆ after.hidden)
    (behind : ∀ id ∈ after.hidden, store.Behind hidden id) :
    store.Underway tip hidden after queue taken := by
  have visible : ∀ other, other ∉ after.hidden → other ∉ walk.hidden := fun other absent old =>
    absent (more old)
  refine ⟨?_, ?_, ?_, ?_, ?_, ?_, ?_, behind, ?_, ?_, state.nodup⟩
  · rw [seen]
    intro other
    rw [links]
    exact state.knows other
  · rw [seen]
    exact state.commits
  · rw [seen]
    exact state.queued
  · rw [seen, expanded]
    exact state.expanded
  · rw [seen, expanded]
    exact state.waiting
  · intro other member absent
    rw [expanded]
    exact state.visible other member (visible other absent)
  · intro other absent
    exact state.once other (visible other absent)
  · rw [expanded]
    intro other member
    exact (state.accounted other member).imp_left fun old => more old
  · rw [expanded]
    exact state.reached

/-- A commit comes into the queue that is hidden or new to the walk. -/
theorem Underway.admit (state : store.Underway tip hidden walk queue taken)
    (knows : store.Knows after (id :: walk.seen)) (seen : after.seen = id :: walk.seen)
    (sameHidden : after.hidden = walk.hidden) (expanded : after.expanded = walk.expanded)
    (known : store.IsCommit id) (joined : later.Perm (id :: queue))
    (origin : id ∈ walk.hidden ∨ id ∉ walk.seen ∧ store.Reaches tip id) :
    store.Underway tip hidden after later taken := by
  have onTheWay : store.OnTheWay tip hidden id := by
    rcases origin with isHidden | ⟨-, fromTip⟩
    · exact Or.inr (state.behind id isHidden)
    · exact Or.inl fromTip
  constructor
  case nodup => exact state.nodup
  all_goals simp only [seen, sameHidden, expanded]
  case knows => exact knows
  case commits =>
    intro other member
    rcases List.mem_cons.mp member with same | old
    · exact same ▸ ⟨known, onTheWay⟩
    · exact state.commits other old
  case queued =>
    intro other member
    rcases List.mem_cons.mp (joined.mem_iff.mp member) with same | old
    · exact same ▸ List.mem_cons_self
    · exact List.mem_cons_of_mem id (state.queued other old)
  case expanded =>
    intro other member
    exact List.mem_cons_of_mem id (state.expanded other member)
  case waiting =>
    intro other member
    rcases List.mem_cons.mp member with same | old
    · exact Or.inr (joined.mem_iff.mpr (same ▸ List.mem_cons_self))
    · exact (state.waiting other old).imp_right fun waits =>
        joined.mem_iff.mpr (List.mem_cons_of_mem id waits)
  case visible =>
    intro other member visible
    rcases List.mem_cons.mp (joined.mem_iff.mp member) with same | old
    · subst same
      obtain ⟨fresh, fromTip⟩ := origin.resolve_left visible
      exact ⟨fun isExpanded => fresh (state.expanded other isExpanded), fromTip⟩
    · exact state.visible other old visible
  case once =>
    intro other visible
    rw [joined.count_eq, List.count_cons]
    split
    · rename_i same
      obtain rfl := eq_of_beq same
      obtain ⟨fresh, -⟩ := origin.resolve_left visible
      have absent : queue.count id = 0 := List.count_eq_zero.mpr fun waits =>
        fresh (state.queued id waits)
      omega
    · exact state.once other visible
  case behind => exact state.behind
  case accounted => exact state.accounted
  case reached => exact state.reached

/-! Queues. -/

/-- Newer commits before older ones. -/
def Sorted (store : Store) (queue : List ObjectId) : Prop :=
  queue.Pairwise fun earlier later => store.seconds later ≤ store.seconds earlier

theorem sorted_enqueue (agrees : ∀ other ∈ id :: queue, walk.time other = store.seconds other)
    (sorted : store.Sorted queue) : store.Sorted (walk.enqueue id queue) := by
  induction queue with
  | nil => exact List.pairwise_singleton _ id
  | cons first rest ih =>
    obtain ⟨newest, restSorted⟩ := List.pairwise_cons.mp sorted
    have atFirst := agrees first (List.mem_cons_of_mem id List.mem_cons_self)
    have atId := agrees id List.mem_cons_self
    rw [Walk.enqueue]
    split
    · rename_i older
      rw [atFirst, atId] at older
      refine List.Pairwise.cons ?_ sorted
      intro other member
      rcases List.mem_cons.mp member with same | member
      · exact same ▸ Int.le_of_lt older
      · exact Int.le_trans (newest other member) (Int.le_of_lt older)
    · rename_i notOlder
      rw [atFirst, atId] at notOlder
      have restAgrees : ∀ other ∈ id :: rest, walk.time other = store.seconds other := by
        intro other member
        rcases List.mem_cons.mp member with same | member
        · exact same ▸ atId
        · exact agrees other (List.mem_cons_of_mem id (List.mem_cons_of_mem first member))
      refine List.Pairwise.cons ?_ (ih restAgrees restSorted)
      intro other member
      rcases List.mem_cons.mp ((Walk.enqueue_perm id rest).mem_iff.mp member) with same | member
      · exact same ▸ Int.not_lt.mp notOlder
      · exact newest other member

/-- What a queue is after some commits joined it, those that had not been in it before. -/
structure Joined (store : Store) (ids queue later : List ObjectId) : Prop where
  length : later.length ≤ ids.length + queue.length
  members : ∀ id ∈ later, id ∈ ids ∨ id ∈ queue
  sorted : store.Sorted queue → store.Sorted later

theorem Joined.none : store.Joined [] queue queue :=
  ⟨Nat.le_of_eq (Nat.zero_add _).symm, fun _ member => Or.inr member, fun sorted => sorted⟩

theorem Joined.keep (id : ObjectId) (queue : List ObjectId) : store.Joined [id] queue queue :=
  ⟨Nat.le_add_left _ _, fun _ member => Or.inr member, fun sorted => sorted⟩

theorem Joined.enqueue
    (agrees : ∀ other ∈ id :: queue, walk.time other = store.seconds other) :
    store.Joined [id] queue (walk.enqueue id queue) := by
  have all := walk.enqueue_perm id queue
  refine ⟨?_, ?_, sorted_enqueue agrees⟩
  · rw [all.length_eq, List.length_cons, List.length_singleton]
    omega
  · intro other member
    rcases List.mem_cons.mp (all.mem_iff.mp member) with same | member
    · exact Or.inl (List.mem_singleton.mpr same)
    · exact Or.inr member

theorem Joined.cons {last : List ObjectId} (first : store.Joined [id] queue later)
    (rest : store.Joined ids later last) : store.Joined (id :: ids) queue last := by
  have firstLength := first.length
  have restLength := rest.length
  rw [List.length_singleton] at firstLength
  refine ⟨?_, ?_, fun sorted => rest.sorted (first.sorted sorted)⟩
  · rw [List.length_cons]
    omega
  · intro other member
    rcases rest.members other member with inIds | inLater
    · exact Or.inl (List.mem_cons_of_mem id inIds)
    · exact (first.members other inLater).imp_left fun same =>
        List.mem_cons.mpr (Or.inl (List.mem_singleton.mp same))

/-! Parents that are received. -/

/-- What receiving some commits does to a walk and its queue. -/
structure Received (store : Store) (behindHidden : Bool) (ids : List ObjectId) (walk after : Walk)
    (queue later : List ObjectId) : Prop where
  joined : store.Joined ids queue later
  seen : walk.seen ⊆ after.seen
  hidden : walk.hidden ⊆ after.hidden
  expanded : after.expanded = walk.expanded
  arrived : ∀ id ∈ ids, id ∈ after.seen ∧ (behindHidden = true → id ∈ after.hidden)
  untouched : behindHidden = false → after.hidden = walk.hidden

theorem Received.none {behindHidden : Bool} :
    store.Received behindHidden [] walk walk queue queue :=
  ⟨.none, List.Subset.refl _, List.Subset.refl _, rfl, (fun _ member => nomatch member),
    fun _ => rfl⟩

theorem Received.cons {behindHidden : Bool} {middle : Walk} {last : List ObjectId}
    (first : store.Received behindHidden [id] walk middle queue later)
    (rest : store.Received behindHidden ids middle after later last) :
    store.Received behindHidden (id :: ids) walk after queue last := by
  refine ⟨first.joined.cons rest.joined, List.Subset.trans first.seen rest.seen,
    List.Subset.trans first.hidden rest.hidden, rest.expanded.trans first.expanded, ?_, ?_⟩
  · intro other member
    rcases List.mem_cons.mp member with same | member
    · obtain ⟨isSeen, isHidden⟩ := first.arrived id (List.mem_singleton.mpr rfl)
      exact same ▸ ⟨rest.seen isSeen, fun behind => rest.hidden (isHidden behind)⟩
    · exact rest.arrived other member
  · intro ahead
    exact (rest.untouched ahead).trans (first.untouched ahead)

/-- A parent of a visible commit comes into the queue, unless it has been there. -/
theorem Underway.receive_visible (sound : store.Sound)
    (state : store.Underway tip hidden walk queue taken) (spread : store.Spread walk done)
    (known : store.IsCommit id) (fromTip : store.Reaches tip id) :
    ∃ after later, store.receive false (walk, queue) id = .ok (after, later) ∧
      store.Received false [id] walk after queue later ∧
      store.Underway tip hidden after later taken ∧ store.Spread after done := by
  by_cases old : id ∈ walk.seen
  · have received : store.receive false (walk, queue) id = .ok (walk, queue) := by
      have contained : walk.seen.contains id = true := List.contains_iff_mem.mpr old
      rw [receive, state.knows.visit_seen old]
      dsimp only [bind, Except.bind]
      rw [if_neg Bool.false_ne_true, if_pos contained]
      rfl
    refine ⟨walk, queue, received, ⟨.keep id queue, List.Subset.refl _, List.Subset.refl _, rfl,
      ?_, fun _ => rfl⟩, state, spread⟩
    intro other member
    rw [List.mem_singleton.mp member]
    exact ⟨old, fun behind => nomatch behind⟩
  · obtain ⟨links, visited, knows⟩ := sound.visit_ok state.knows known
    have received : store.receive false (walk, queue) id =
        .ok ({ walk with links := links, seen := id :: walk.seen },
          Walk.enqueue { walk with links := links } id queue) := by
      have absent : ¬ walk.seen.contains id = true := fun contained =>
        old (List.contains_iff_mem.mp contained)
      rw [receive]
      dsimp only [bind, Except.bind]
      rw [if_neg Bool.false_ne_true, visited]
      dsimp only
      rw [if_neg absent]
      rfl
    have agrees : ∀ other ∈ id :: queue,
        Walk.time { walk with links := links } other = store.seconds other := by
      intro other member
      apply knows.time_eq
      exact List.mem_cons.mpr ((List.mem_cons.mp member).imp_right (state.queued other))
    refine ⟨_, _, received, ⟨.enqueue agrees, List.subset_cons_self _ _, List.Subset.refl _, rfl,
      ?_, fun _ => rfl⟩, ?_, ?_⟩
    · intro other member
      rw [List.mem_singleton.mp member]
      exact ⟨List.mem_cons_self, fun behind => nomatch behind⟩
    · exact state.admit knows rfl rfl rfl known (Walk.enqueue_perm id queue)
        (Or.inr ⟨old, fromTip⟩)
    · intro other isDone parent above
      obtain ⟨isSeen, isHidden⟩ := spread other isDone parent above
      exact ⟨List.mem_cons_of_mem id isSeen, isHidden⟩

/-- A parent of a hidden commit is hidden, with all that it is known to reach, and comes into the
queue. -/
theorem Underway.receive_hidden (sound : store.Sound)
    (state : store.Underway tip hidden walk queue taken) (spread : store.Spread walk done)
    (within : done ⊆ walk.seen) (known : store.IsCommit id) (behind : store.Behind hidden id) :
    ∃ after later, store.receive true (walk, queue) id = .ok (after, later) ∧
      store.Received true [id] walk after queue later ∧
      store.Underway tip hidden after later taken ∧ store.Spread after done := by
  have behindHide : ∀ other ∈ (walk.hide id).hidden, store.Behind hidden other := by
    intro other member
    rcases (walk.mem_hide id other).mp member with same | old
    · exact same ▸ behind
    · exact state.behind other old
  have hides : walk.hidden ⊆ (walk.hide id).hidden := fun other old =>
    (walk.mem_hide id other).mpr (Or.inr old)
  have hiddenFirst : store.Underway tip hidden (walk.hide id) queue taken :=
    state.hiding (Walk.links_hide walk id) (Walk.seen_hide walk id) (Walk.expanded_hide walk id)
      hides behindHide
  obtain ⟨links, visited, knows⟩ := sound.visit_ok hiddenFirst.knows known
  -- The walk after the commit was read, and after what lies behind it was hidden.
  generalize reads : ({ walk.hide id with links := links } : Walk) = read at visited knows
  have readSeen : read.seen = walk.seen := by rw [← reads]; exact Walk.seen_hide walk id
  have readHidden : read.hidden = (walk.hide id).hidden := by rw [← reads]
  have readExpanded : read.expanded = walk.expanded := by
    rw [← reads]
    exact Walk.expanded_hide walk id
  have grows : read.hidden ⊆ (read.hideBehind id).hidden := read.hidden_subset_hideBehind id
  have here : id ∈ read.hidden := by
    rw [readHidden]
    exact (walk.mem_hide id id).mpr (Or.inl rfl)
  rw [Walk.seen_hide] at knows
  have received : store.receive true (walk, queue) id =
      .ok ({ read.hideBehind id with seen := id :: (read.hideBehind id).seen },
        (read.hideBehind id).enqueue id queue) := by
    rw [receive]
    dsimp only [bind, Except.bind]
    rw [if_pos rfl, visited]
    rfl
  have agrees : ∀ other ∈ id :: queue, (read.hideBehind id).time other = store.seconds other := by
    intro other member
    rw [Walk.time_congr (Walk.links_hideBehind read id)]
    apply knows.time_eq
    exact List.mem_cons.mpr ((List.mem_cons.mp member).imp_right (state.queued other))
  have seenLater : (read.hideBehind id).seen = walk.seen := by
    rw [Walk.seen_hideBehind, readSeen]
  refine ⟨_, _, received, ⟨.enqueue agrees, ?_, ?_, ?_, ?_, fun ahead => nomatch ahead⟩, ?_, ?_⟩
  · rw [seenLater]
    exact List.subset_cons_self _ _
  · intro other old
    apply grows
    rw [readHidden]
    exact hides old
  · rw [← readExpanded]
    exact Walk.expanded_hideBehind read id
  · intro other member
    rw [List.mem_singleton.mp member]
    exact ⟨List.mem_cons_self, fun _ => grows here⟩
  · have admitted : store.Underway tip hidden { read with seen := id :: walk.seen }
        ((read.hideBehind id).enqueue id queue) taken := by
      have knowsLater : store.Knows { read with seen := id :: walk.seen }
          (id :: (walk.hide id).seen) := by
        rw [Walk.seen_hide]
        exact knows
      refine hiddenFirst.admit knowsLater ?_ readHidden ?_ known (Walk.enqueue_perm id queue) ?_
      · rw [Walk.seen_hide]
      · exact readExpanded.trans (Walk.expanded_hide walk id).symm
      · exact Or.inl ((walk.mem_hide id id).mpr (Or.inl rfl))
    refine admitted.hiding (Walk.links_hideBehind read id) ?_ (Walk.expanded_hideBehind read id)
      grows ?_
    · rw [seenLater]
    · exact knows.behind_hideBehind behind (readHidden ▸ behindHide)
  · intro other isDone parent above
    obtain ⟨isSeen, isHidden⟩ := spread other isDone parent above
    refine ⟨?_, ?_⟩
    · rw [seenLater]
      exact List.mem_cons_of_mem id isSeen
    · refine knows.parent_hidden (List.mem_cons_of_mem id (within isDone)) above ?_
      rw [readHidden, walk.mem_hide]
      exact fun old => old.imp_right fun hiddenBefore => hides (isHidden hiddenBefore)

end Store

end GitHistory
