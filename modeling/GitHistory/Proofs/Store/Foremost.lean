import GitHistory.Proofs.Store.Order
import GitHistory.Proofs.Store.Walk

/-! The history of a tip starts with the tip, in any repository in which the tip is not its own
ancestor. Nothing is hidden then, so all that is taken besides the tip is a parent of what is
taken too, and has to wait for it. -/
namespace GitHistory

namespace Walk

variable {walk : Walk} {taken : List ObjectId} {tip : ObjectId}

end Walk

namespace Store

variable {store : Store} {walk : Walk} {tip id : ObjectId} {queue taken : List ObjectId}

/-- What was read of commits is what the repository has of them. -/
def Faithful (store : Store) (walk : Walk) : Prop :=
  ∀ id link, walk.links.lookup id = some link → link.parents = store.parents id

/-- A walk with nothing hidden: what waits or was taken was read, and is the tip or a parent of
what was taken, so that the tip reaches it. -/
structure Unhidden (store : Store) (tip : ObjectId) (walk : Walk) (queue taken : List ObjectId) :
    Prop where
  visible : walk.hidden = []
  faithful : store.Faithful walk
  known : ∀ id ∈ queue ++ taken, (walk.links.lookup id).isSome = true
  below : ∀ id ∈ queue ++ taken, id = tip ∨ ∃ child ∈ taken, id ∈ store.parents child
  reached : ∀ id ∈ queue ++ taken, store.Reaches tip id

theorem Unhidden.parents_eq (state : store.Unhidden tip walk queue taken)
    (member : id ∈ queue ++ taken) : walk.parents id = store.parents id := by
  obtain ⟨link, found⟩ := Option.isSome_iff_exists.mp (state.known id member)
  rw [Walk.parents, found]
  exact state.faithful id link found

/-- Less may wait. -/
theorem Unhidden.ended (state : store.Unhidden tip walk queue taken) :
    store.Unhidden tip walk [] taken :=
  ⟨state.visible, state.faithful,
    fun id member => state.known id (List.mem_append_right queue member),
    fun id member => state.below id (List.mem_append_right queue member),
    fun id member => state.reached id (List.mem_append_right queue member)⟩

/-- What taking notice of a commit leaves as it was. -/
structure Noticed (store : Store) (id : ObjectId) (walk after : Walk) : Prop where
  hidden : after.hidden = walk.hidden
  seen : after.seen = walk.seen
  faithful : store.Faithful walk → store.Faithful after
  here : (after.links.lookup id).isSome = true
  kept : ∀ other, (walk.links.lookup other).isSome = true →
    (after.links.lookup other).isSome = true

/-- A commit joins the queue that is the tip or a parent of what was taken. -/
theorem Unhidden.join (state : store.Unhidden tip walk queue taken) {after : Walk}
    {later : List ObjectId} (noticed : store.Noticed id walk after)
    (members : ∀ other ∈ later, other = id ∨ other ∈ queue)
    (origin : id = tip ∨ ∃ child ∈ taken, id ∈ store.parents child) :
    store.Unhidden tip after later taken := by
  have fromTip : store.Reaches tip id := by
    rcases origin with rfl | ⟨child, isTaken, above⟩
    · exact .here _
    · have down := state.reached child (List.mem_append_right queue isTaken)
      exact down.trans (.single above)
  have cases {property : ObjectId → Prop} (here : property id)
      (old : ∀ other ∈ queue ++ taken, property other) :
      ∀ other ∈ later ++ taken, property other := by
    intro other member
    rcases List.mem_append.mp member with inLater | isTaken
    · rcases members other inLater with rfl | inQueue
      · exact here
      · exact old other (List.mem_append_left taken inQueue)
    · exact old other (List.mem_append_right queue isTaken)
  exact ⟨noticed.hidden.trans state.visible, noticed.faithful state.faithful,
    cases noticed.here fun other member => noticed.kept other (state.known other member),
    cases origin state.below, cases fromTip state.reached⟩

end Store

end GitHistory
