import GitHistory.Proofs.Store.Advance
import GitHistory.Proofs.Store.Order

/-! The history of a range. All of the range is in it, once, and no commit of the range before one
of its descendants. What lies behind the hidden commit is not, unless some commit is older than
one of its parents. -/
namespace GitHistory.Store

variable {store : Store} {walk after : Walk} {tip id first last : ObjectId}
  {hidden : Option ObjectId} {queue rest taken : List ObjectId}

/-! What has been taken when a walk ends. -/

/-- What is seen and leads to a commit of the range is taken, and so is that commit. -/
theorem Ended.taken_of_reaches (ended : store.Ended tip hidden walk after rest taken)
    (isSeen : first ∈ after.seen) (visible : ¬ store.Behind hidden last)
    (reaches : store.Reaches first last) : last ∈ taken := by
  have state := ended.state
  have expandedTaken : ∀ id ∈ after.seen, store.Reaches id last →
      id ∈ after.expanded ∧ id ∈ taken := by
    intro id isSeen further
    have notHidden : id ∉ after.hidden := fun isHidden =>
      visible ((state.behind id isHidden).reaches further)
    have isExpanded : id ∈ after.expanded := by
      rcases state.waiting id isSeen with isExpanded | waits
      · exact isExpanded
      · exact absurd (ended.allHidden id waits) notHidden
    exact ⟨isExpanded, (state.accounted id isExpanded).resolve_left notHidden⟩
  induction reaches with
  | here id => exact (expandedTaken id isSeen (.here id)).2
  | @parent id next last up further ih =>
    obtain ⟨isExpanded, -⟩ := expandedTaken id isSeen (.parent up further)
    exact ih (ended.spread id isExpanded next up).1 visible expandedTaken

/-- A hidden commit leads to one that is not by way of one that still waits. -/
theorem Ended.exists_waiting (ended : store.Ended tip hidden walk after rest taken)
    (isSeen : first ∈ after.seen) (isHidden : first ∈ after.hidden) (visible : last ∉ after.hidden)
    (reaches : store.Reaches first last) : ∃ id ∈ rest, store.Reaches id last := by
  induction reaches with
  | here id => exact absurd isHidden visible
  | @parent id next last up further ih =>
    rcases ended.state.waiting id isSeen with isExpanded | waits
    · obtain ⟨nextSeen, nextHidden⟩ := ended.spread id isExpanded next up
      exact ih nextSeen (nextHidden isHidden) visible
    · exact ⟨id, waits, .parent up further⟩

/-- Without skew, what was taken and is not hidden is in the range: what waits is too old to lead
to it. -/
theorem Ended.inRange (ended : store.Ended tip hidden walk after rest taken)
    (started : ∀ root, hidden = some root → root ∈ after.seen ∧ root ∈ after.hidden)
    (steady : store.Chronological tip hidden) (member : id ∈ taken) (visible : id ∉ after.hidden) :
    store.InRange tip hidden id := by
  refine ⟨(ended.state.reached id member).2, ?_⟩
  rintro ⟨root, isHidden, fromRoot⟩
  obtain ⟨rootSeen, rootHidden⟩ := started root isHidden
  obtain ⟨waiting, waits, further⟩ := ended.exists_waiting rootSeen rootHidden visible fromRoot
  obtain ⟨last, older, notOlder⟩ := ended.older steady
  have onTheWay := (ended.state.commits waiting (ended.state.queued waiting waits)).2
  have notNewer := steady.seconds_le onTheWay further
  have before := older waiting waits
  have behind := notOlder id member
  omega

/-! The start of a walk. -/

theorem Underway.start (store : Store) (tip : ObjectId) (hidden : Option ObjectId) :
    store.Underway tip hidden { hidden := hidden.toList } [] [] := by
  have none : ∀ id, id ∉ ([] : List ObjectId) := fun _ => List.not_mem_nil
  refine ⟨fun _ => rfl, fun id member => absurd member (none id),
    fun id member => absurd member (none id), fun id member => absurd member (none id),
    fun id member => absurd member (none id), fun id member => absurd member (none id),
    fun _ _ => Nat.zero_le 1, ?_, fun id member => absurd member (none id),
    fun id member => absurd member (none id), List.nodup_nil⟩
  intro id member
  exact ⟨id, Option.mem_toList.mp member, .here id⟩

/-- What a commit of the start does to a walk and its queue. -/
structure Entered (walk after : Walk) (id : ObjectId) (queue later : List ObjectId) : Prop where
  seen : walk.seen ⊆ after.seen
  here : id ∈ after.seen
  grows : walk.hidden ⊆ after.hidden
  expanded : after.expanded = walk.expanded
  joined : later = queue ∨ later = queue ++ [id]

/-- Hiding what lies behind a commit, if it is hidden itself. -/
theorem Knows.hideIfHidden {seen : List ObjectId} (knows : store.Knows walk seen)
    (old : ∀ other ∈ walk.hidden, store.Behind hidden other) (id : ObjectId) :
    ∃ after : Walk, (if walk.isHidden id then walk.hideBehind id else walk) = after ∧
      after.links = walk.links ∧ after.seen = walk.seen ∧ after.expanded = walk.expanded ∧
      walk.hidden ⊆ after.hidden ∧ ∀ other ∈ after.hidden, store.Behind hidden other := by
  by_cases isHidden : walk.isHidden id = true
  · have here := old id (Walk.isHidden_iff.mp isHidden)
    exact ⟨_, if_pos isHidden, Walk.links_hideBehind walk id, Walk.seen_hideBehind walk id,
      Walk.expanded_hideBehind walk id, walk.hidden_subset_hideBehind id,
      knows.behind_hideBehind here old⟩
  · exact ⟨walk, if_neg isHidden, rfl, rfl, rfl, List.Subset.refl _, old⟩

/-- A commit of the start comes into the queue, unless it is there. -/
theorem Underway.enter (sound : store.Sound)
    (state : store.Underway tip hidden walk queue taken) (known : store.IsCommit id)
    (origin : id ∈ walk.hidden ∨ store.Reaches tip id) :
    ∃ after later, store.enter (walk, queue) id = .ok (after, later) ∧
      store.Underway tip hidden after later taken ∧ Entered walk after id queue later := by
  by_cases old : id ∈ walk.seen
  · obtain ⟨after, hides, links, seen, expanded, grows, behind⟩ :=
      state.knows.hideIfHidden state.behind id
    have contained : after.seen.contains id = true := by
      rw [seen]
      exact List.contains_iff_mem.mpr old
    refine ⟨after, queue, ?_, state.hiding links seen expanded grows behind,
      ⟨fun other member => seen ▸ member, seen ▸ old, grows, expanded, Or.inl rfl⟩⟩
    rw [Store.enter]
    dsimp only [bind, Except.bind]
    rw [state.knows.visit_seen old]
    dsimp only
    rw [hides, if_pos contained]
    rfl
  · obtain ⟨links, visited, knows⟩ := sound.visit_ok state.knows known
    obtain ⟨after, hides, sameLinks, seen, expanded, grows, behind⟩ :=
      knows.hideIfHidden state.behind id
    have absent : ¬ after.seen.contains id = true := by
      rw [seen]
      exact fun contained => old (List.contains_iff_mem.mp contained)
    have admitted : store.Underway tip hidden
        { walk with links := links, seen := id :: walk.seen } (queue ++ [id]) taken :=
      state.admit knows rfl rfl rfl known (List.perm_append_singleton id queue)
        (origin.imp_right fun fromTip => ⟨old, fromTip⟩)
    refine ⟨{ after with seen := id :: after.seen }, queue ++ [id], ?_,
      admitted.hiding sameLinks ?_ expanded grows behind,
      ⟨fun other member => List.mem_cons_of_mem id (seen ▸ member), List.mem_cons_self, grows,
        expanded, Or.inr rfl⟩⟩
    · rw [Store.enter]
      dsimp only [bind, Except.bind]
      rw [visited]
      dsimp only
      rw [hides, if_neg absent]
      rfl
    · exact congrArg (id :: ·) seen

theorem Timely.start {last : Int} (notNewer : ∀ id ∈ queue, store.seconds id ≤ last)
    (short : ∀ first rest, queue = first :: rest →
      rest.length ≤ 1 ∧ (first ∉ walk.hidden → rest = [])) :
    store.Timely walk queue [] last := by
  refine ⟨?_, notNewer, fun _ member => nomatch member⟩
  intro first rest same
  obtain ⟨atMost, alone⟩ := short first rest same
  constructor
  · match rest, atMost with
    | [], _ => exact List.Pairwise.nil
    | [second], _ => exact List.pairwise_singleton _ second
  · intro visible other member
    rw [alone visible] at member
    cases member

/-- Both the hidden commit and the tip are seen at the start, the hidden one in front. -/
theorem Sound.enter_all (sound : store.Sound) (known : store.IsCommit tip)
    (hiddenKnown : ∀ root, hidden = some root → store.IsCommit root) :
    ∃ walk queue, (hidden.toList ++ [tip]).foldlM store.enter
        ({ hidden := hidden.toList }, []) = .ok (walk, queue) ∧
      store.Underway tip hidden walk queue [] ∧ walk.expanded = [] ∧ tip ∈ walk.seen ∧
      (∀ root, hidden = some root → root ∈ walk.seen ∧ root ∈ walk.hidden) ∧
      queue.length ≤ (hidden.toList ++ [tip]).length ∧
      store.Timely walk queue [] endOfTime := by
  have state := Underway.start store tip hidden
  have notNewer : ∀ {walk queue}, store.Underway tip hidden walk queue [] →
      ∀ id ∈ queue, store.seconds id ≤ endOfTime := fun state id member =>
    sound.seconds_le_endOfTime (state.commits id (state.queued id member)).1
  cases hidden with
  | none =>
    obtain ⟨walk, queue, entered, ends, facts⟩ := state.enter sound known (Or.inr (.here tip))
    have shape : queue = [] ∨ queue = [tip] := facts.joined
    refine ⟨walk, queue, ?_, ends, facts.expanded, facts.here, (fun _ same => nomatch same), ?_, ?_⟩
    · exact (bind_pure _).trans entered
    · rcases shape with rfl | rfl <;> simp
    · apply Timely.start (notNewer ends)
      rcases shape with rfl | rfl
      · intro first rest same
        cases same
      · intro first rest same
        cases same
        exact ⟨Nat.zero_le 1, fun _ => rfl⟩
  | some root =>
    have rootHidden : root ∈ (some root).toList := List.mem_singleton.mpr rfl
    obtain ⟨middle, between, enteredRoot, midway, rootFacts⟩ :=
      state.enter sound (hiddenKnown root rfl) (Or.inl rootHidden)
    obtain ⟨walk, queue, enteredTip, ends, tipFacts⟩ :=
      midway.enter sound known (Or.inr (.here tip))
    have nowHidden : root ∈ walk.hidden := tipFacts.grows (rootFacts.grows rootHidden)
    have shape : queue = [] ∨ queue = [root] ∨ queue = [tip] ∨ queue = [root, tip] := by
      rcases rootFacts.joined with rfl | rfl <;> rcases tipFacts.joined with rfl | rfl <;> simp
    refine ⟨walk, queue, ?_, ends, tipFacts.expanded.trans rootFacts.expanded, tipFacts.here,
      ?_, ?_, ?_⟩
    · have start : (some root).toList ++ [tip] = [root, tip] := rfl
      rw [start, List.foldlM_cons, enteredRoot]
      exact (bind_pure _).trans enteredTip
    · rintro other same
      cases same
      exact ⟨tipFacts.seen rootFacts.here, nowHidden⟩
    · rcases shape with rfl | rfl | rfl | rfl <;> simp
    · apply Timely.start (notNewer ends)
      intro first rest same
      rcases shape with rfl | rfl | rfl | rfl <;> cases same
      · exact ⟨Nat.zero_le 1, fun _ => rfl⟩
      · exact ⟨Nat.zero_le 1, fun _ => rfl⟩
      · exact ⟨Nat.le_refl 1, fun visible => absurd nowHidden visible⟩

/-- A walk from a tip, away from a hidden commit, ends with both of them seen. -/
theorem Sound.walkFrom_ended (sound : store.Sound) (known : store.IsCommit tip)
    (hiddenKnown : ∀ root, hidden = some root → store.IsCommit root) :
    ∃ walk after rest taken, store.walkFrom [tip] hidden = .ok (after, taken) ∧
      store.Ended tip hidden walk after rest taken ∧ tip ∈ after.seen ∧
      ∀ root, hidden = some root → root ∈ after.seen ∧ root ∈ after.hidden := by
  obtain ⟨walk, queue, entered, state, expanded, tipSeen, rootSeen, length, timely⟩ :=
    sound.enter_all known hiddenKnown
  have spread : store.Spread walk walk.expanded := by
    rw [expanded]
    exact fun _ member => nomatch member
  have atMost := store.openLinks_le walk.expanded
  have enough : queue.length + store.openLinks walk.expanded ≤
      (hidden.toList ++ [tip]).length + store.linkCount + 1 := by
    omega
  obtain ⟨after, taken, rest, run, ended⟩ := state.advance sound spread (fun _ => timely) enough
  rw [List.nil_append] at ended
  refine ⟨walk, after, rest, taken, ?_, ended, ended.seen tipSeen, ?_⟩
  · rw [walkFrom, List.reverse_singleton]
    dsimp only [bind, Except.bind]
    rw [entered]
    exact run
  · intro root same
    obtain ⟨isSeen, isHidden⟩ := rootSeen root same
    exact ⟨ended.seen isSeen, ended.grows isHidden⟩

/-- A history of the range: all of it once, in an order in which no commit of it comes before a
descendant. What else is in it is reached by the tip, and there is nothing else without skew. -/
structure Selects (store : Store) (tip : ObjectId) (hidden : Option ObjectId)
    (history : List ObjectId) : Prop where
  nodup : history.Nodup
  complete : ∀ id, store.InRange tip hidden id → id ∈ history
  reached : ∀ id ∈ history, store.Reaches tip id
  ordered : history.Pairwise fun earlier later =>
    store.InRange tip hidden earlier → ¬ store.Reaches later earlier
  exact : hidden = none ∨ store.Chronological tip hidden →
    ∀ id ∈ history, store.InRange tip hidden id

theorem Sound.history_selects (sound : store.Sound) (known : store.IsCommit tip)
    (hiddenKnown : ∀ root, hidden = some root → store.IsCommit root) :
    ∃ history, store.history tip hidden = .ok history ∧ store.Selects tip hidden history := by
  obtain ⟨walk, after, rest, taken, run, ended, tipSeen, started⟩ :=
    sound.walkFrom_ended known hiddenKnown
  have state := ended.state
  have knows : ∀ id ∈ taken, after.parents id = store.parents id := by
    intro id member
    exact state.knows.parents_eq (state.expanded id (state.reached id member).1)
  have complete : ∀ id, store.InRange tip hidden id → id ∈ taken := by
    intro id range
    exact ended.taken_of_reaches tipSeen range.2 range.1
  obtain ⟨order, all, childrenFirst, outcome⟩ :=
    Walk.outcome_spec state.nodup (sound.neverStuck knows)
  have mem_outcome : ∀ id, id ∈ after.outcome taken ↔ id ∈ taken ∧ id ∉ after.hidden := by
    intro id
    rw [outcome, List.mem_filter, all.mem_iff, Bool.not_eq_true', ← Bool.not_eq_true,
      Walk.isHidden_iff]
  have nodup := all.nodup_iff.mpr state.nodup
  refine ⟨after.outcome taken, by rw [history, run]; rfl, ?_, ?_, ?_, ?_, ?_⟩
  · rw [outcome]
    exact nodup.filter _
  · intro id range
    refine (mem_outcome id).mpr ⟨complete id range, ?_⟩
    exact fun isHidden => range.2 (state.behind id isHidden)
  · intro id member
    exact (state.reached id ((mem_outcome id).mp member).1).2
  · have inOrder : ∀ id, store.InRange tip hidden id → id ∈ [] ++ order := fun id range =>
      all.mem_iff.mpr (complete id range)
    have fromTip : ∀ id ∈ [] ++ order, store.Reaches tip id := fun id member =>
      (state.reached id (all.mem_iff.mp member)).2
    have parentsLater : order.Pairwise fun earlier later => earlier ∉ store.parents later := by
      refine childrenFirst.imp_of_mem ?_
      intro earlier later _ member notAbove
      rwa [knows later (all.mem_iff.mp member)] at notAbove
    rw [outcome]
    apply List.Pairwise.filter
    exact sound.pairwise_unreached inOrder fromTip nodup parentsLater fun _ member =>
      nomatch member
  · intro steady id member
    obtain ⟨isTaken, visible⟩ := (mem_outcome id).mp member
    rcases steady with none | steady
    · refine ⟨(state.reached id isTaken).2, ?_⟩
      rintro ⟨root, isHidden, -⟩
      rw [none] at isHidden
      cases isHidden
    · exact ended.inRange started steady isTaken visible

end GitHistory.Store
