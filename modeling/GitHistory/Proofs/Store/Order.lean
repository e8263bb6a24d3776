import GitHistory.Proofs.Heap
import GitHistory.Proofs.Store.Ancestry
import GitHistory.Store.History
import Mathlib.Data.List.Nodup

/-! The order in which commits that were taken come out. Those that may come out next are always
the ones in the heap, so all of them come out, and none before one of its children. -/
namespace GitHistory

theorem nodup_eraseDups {α : Type} [DecidableEq α] (values : List α) :
    values.eraseDups.Nodup := by
  match values with
  | [] => exact List.nodup_nil
  | first :: rest =>
    rw [List.eraseDups_cons, List.nodup_cons]
    refine ⟨?_, nodup_eraseDups (rest.filter fun other => !other == first)⟩
    rw [List.mem_eraseDups]
    simp
termination_by values.length
decreasing_by exact Nat.lt_succ_of_le (List.length_filter_le _ rest)

namespace Walk

variable {walk : Walk} {others heap rest remaining taken : List ObjectId} {id parent : ObjectId}

theorem isReady_iff :
    walk.isReady others id = true ↔ ∀ other ∈ others, id ∉ walk.parents other := by
  rw [isReady, Bool.not_eq_true', List.any_eq_false]
  simp

theorem mem_readyParents_iff :
    parent ∈ walk.readyParents others id ↔
      parent ∈ walk.parents id ∧ parent ∈ others ∧ walk.isReady others parent = true := by
  simp [readyParents, List.mem_eraseDups]

theorem nodup_readyParents (others : List ObjectId) (id : ObjectId) :
    (walk.readyParents others id).Nodup :=
  (List.nodup_reverse.mpr (nodup_eraseDups _)).filter _

/-- A heap of the commits that may come out of those that are left. -/
structure Waiting (walk : Walk) (heap remaining : List ObjectId) : Prop where
  heapNodup : heap.Nodup
  nodup : remaining.Nodup
  mem_iff : ∀ id, id ∈ heap ↔ id ∈ remaining ∧ walk.isReady remaining id = true

theorem Waiting.start (nodup : taken.Nodup) :
    walk.Waiting (Heap.ofList walk.isNewer (taken.filter (walk.isReady taken))) taken := by
  have all : (Heap.ofList walk.isNewer (taken.filter (walk.isReady taken))).Perm
      (taken.filter (walk.isReady taken)) := Heap.ofList_perm _
  refine ⟨all.nodup_iff.mpr (nodup.filter _), nodup, ?_⟩
  intro id
  rw [all.mem_iff, List.mem_filter]

/-- A commit that comes out leaves those behind that may come out now: the ones that could before,
and its parents without another child. -/
theorem Waiting.step (waiting : walk.Waiting heap remaining)
    (popped : Heap.pop? walk.isNewer heap = some (id, rest)) :
    walk.Waiting ((walk.readyParents (remaining.erase id) id).foldl (Heap.insert walk.isNewer) rest)
      (remaining.erase id) := by
  have all := Heap.pop?_perm popped
  have heapNodup := all.nodup_iff.mpr waiting.heapNodup
  obtain ⟨gone, restNodup⟩ := List.nodup_cons.mp heapNodup
  have comesOut := (waiting.mem_iff id).mp (all.mem_iff.mp List.mem_cons_self)
  have inserted : ((walk.readyParents (remaining.erase id) id).foldl
      (Heap.insert walk.isNewer) rest).Perm (walk.readyParents (remaining.erase id) id ++ rest) :=
    Heap.foldl_insert_perm _ _
  have left : ∀ other, other ∈ remaining.erase id ↔ other ≠ id ∧ other ∈ remaining := by
    intro other
    exact waiting.nodup.mem_erase_iff
  refine ⟨inserted.nodup_iff.mpr ?_, waiting.nodup.erase id, ?_⟩
  · refine List.nodup_append.mpr ⟨nodup_readyParents _ _, restNodup, ?_⟩
    rintro parent isParent other inRest rfl
    obtain ⟨above, -, -⟩ := mem_readyParents_iff.mp isParent
    have wasReady := ((waiting.mem_iff parent).mp
      (all.mem_iff.mp (List.mem_cons_of_mem id inRest))).2
    exact isReady_iff.mp wasReady id comesOut.1 above
  · intro other
    rw [inserted.mem_iff, List.mem_append, mem_readyParents_iff]
    constructor
    · rintro (⟨-, present, ready⟩ | inRest)
      · exact ⟨present, ready⟩
      · obtain ⟨present, wasReady⟩ := (waiting.mem_iff other).mp
          (all.mem_iff.mp (List.mem_cons_of_mem id inRest))
        refine ⟨(left other).mpr ⟨?_, present⟩, isReady_iff.mpr ?_⟩
        · rintro rfl
          exact gone inRest
        · intro child inErased
          exact isReady_iff.mp wasReady child ((left child).mp inErased).2
    · rintro ⟨inErased, ready⟩
      by_cases above : other ∈ walk.parents id
      · exact Or.inl ⟨above, inErased, ready⟩
      · obtain ⟨different, present⟩ := (left other).mp inErased
        have wasReady : walk.isReady remaining other = true := by
          apply isReady_iff.mpr
          intro child inRemaining
          by_cases same : child = id
          · exact same ▸ above
          · exact isReady_iff.mp ready child ((left child).mpr ⟨same, inRemaining⟩)
        have inHeap := all.mem_iff.mpr ((waiting.mem_iff other).mpr ⟨present, wasReady⟩)
        exact Or.inr ((List.mem_cons.mp inHeap).resolve_left different)

/-- Some commit may come out, whichever are left. -/
def NeverStuck (walk : Walk) (taken : List ObjectId) : Prop :=
  ∀ left ⊆ taken, left ≠ [] → ∃ id ∈ left, walk.isReady left id = true

/-- All commits come out, each after its children. By induction on the turns: what may come out
next is in the heap. -/
theorem ordered_spec {turns : Nat} (waiting : walk.Waiting heap remaining)
    (unstuck : walk.NeverStuck remaining) (enough : remaining.length = turns) :
    (walk.ordered turns heap remaining).Perm remaining ∧
      (walk.ordered turns heap remaining).Pairwise fun earlier later =>
        earlier ∉ walk.parents later := by
  induction turns generalizing heap remaining with
  | zero =>
    rw [List.length_eq_zero_iff.mp enough, ordered]
    exact ⟨List.Perm.refl [], List.Pairwise.nil⟩
  | succ turns ih =>
    rw [ordered]
    split
    · rename_i none
      have emptyHeap := Heap.pop?_eq_none none
      have nonempty : remaining ≠ [] := by
        rintro rfl
        cases enough
      obtain ⟨id, present, ready⟩ := unstuck remaining (List.Subset.refl _) nonempty
      have inHeap := (waiting.mem_iff id).mpr ⟨present, ready⟩
      rw [emptyHeap] at inHeap
      cases inHeap
    · rename_i id rest popped
      have inHeap := (Heap.pop?_perm popped).mem_iff.mp List.mem_cons_self
      obtain ⟨present, ready⟩ := (waiting.mem_iff id).mp inHeap
      have fewer : (remaining.erase id).length = turns := by
        rw [List.length_erase_of_mem present, enough]
        rfl
      have unstuckRest : walk.NeverStuck (remaining.erase id) := by
        intro left part
        exact unstuck left fun other inLeft => List.mem_of_mem_erase (part inLeft)
      obtain ⟨all, apart⟩ := ih (waiting.step popped) unstuckRest fewer
      refine ⟨(all.cons id).trans (List.perm_cons_erase present).symm, ?_⟩
      refine List.Pairwise.cons ?_ apart
      intro later comesLater
      exact isReady_iff.mp ready later (List.mem_of_mem_erase (all.mem_iff.mp comesLater))

/-- What comes out is what was taken and is not hidden, every commit after its children. -/
theorem outcome_spec (nodup : taken.Nodup) (unstuck : walk.NeverStuck taken) :
    ∃ order : List ObjectId, order.Perm taken ∧
      (order.Pairwise fun earlier later => earlier ∉ walk.parents later) ∧
      walk.outcome taken = order.filter fun id => !walk.isHidden id := by
  obtain ⟨all, apart⟩ := ordered_spec (Waiting.start nodup) unstuck rfl
  exact ⟨_, all, apart, rfl⟩

end Walk

namespace Store

variable {store : Store}

/-- Among commits there is one that no other one reaches. -/
theorem Sound.exists_unreached (sound : store.Sound) {ids : List ObjectId} (some : ids ≠ []) :
    ∃ id ∈ ids, ∀ other ∈ ids, store.Reaches other id → other = id := by
  induction ids with
  | nil => exact absurd rfl some
  | cons first rest ih =>
    by_cases alone : rest = []
    · refine ⟨first, List.mem_cons_self, ?_⟩
      intro other member _
      rw [alone, List.mem_singleton] at member
      exact member
    · obtain ⟨top, inRest, unreached⟩ := ih alone
      by_cases above : store.Reaches first top
      · refine ⟨first, List.mem_cons_self, ?_⟩
        intro other member reaches
        rcases List.mem_cons.mp member with same | member
        · exact same
        · obtain rfl := unreached other member (reaches.trans above)
          exact sound.antisymm reaches above
      · refine ⟨top, List.mem_cons_of_mem first inRest, ?_⟩
        intro other member reaches
        rcases List.mem_cons.mp member with same | member
        · exact absurd (same ▸ reaches) above
        · exact unreached other member reaches

/-- A walk that knows the parents of what it took gets all of it in order. -/
theorem Sound.neverStuck (sound : store.Sound) {walk : Walk} {taken : List ObjectId}
    (knows : ∀ id ∈ taken, walk.parents id = store.parents id) : walk.NeverStuck taken := by
  intro left part nonempty
  obtain ⟨id, present, unreached⟩ := sound.exists_unreached nonempty
  refine ⟨id, present, Walk.isReady_iff.mpr ?_⟩
  intro child inLeft above
  rw [knows child (part inLeft)] at above
  obtain rfl := unreached child inLeft (.single above)
  exact sound.acyclic child child above (.here child)

/-- In a list in which no commit comes before a child, and in which nothing of a range is missing,
no commit of the range comes before a descendant. By induction on the list, what came before being
reached by nothing that is still to come. -/
theorem Sound.pairwise_unreached (sound : store.Sound) {tip : ObjectId} {hidden : Option ObjectId}
    {before after : List ObjectId}
    (complete : ∀ id, store.InRange tip hidden id → id ∈ before ++ after)
    (fromTip : ∀ id ∈ before ++ after, store.Reaches tip id) (nodup : after.Nodup)
    (childrenFirst : after.Pairwise fun earlier later => earlier ∉ store.parents later)
    (apart : ∀ earlier ∈ before, store.InRange tip hidden earlier →
      ∀ later ∈ after, ¬ store.Reaches later earlier) :
    after.Pairwise fun earlier later =>
      store.InRange tip hidden earlier → ¬ store.Reaches later earlier := by
  induction after generalizing before with
  | nil => exact List.Pairwise.nil
  | cons id rest ih =>
    obtain ⟨notLater, restNodup⟩ := List.nodup_cons.mp nodup
    obtain ⟨noChild, restFirst⟩ := List.pairwise_cons.mp childrenFirst
    have unreached : store.InRange tip hidden id → ∀ later ∈ rest, ¬ store.Reaches later id := by
      intro range later inRest reaches
      have different : later ≠ id := by
        rintro rfl
        exact notLater inRest
      obtain ⟨child, down, above⟩ := reaches.exists_child different
      have inList : later ∈ before ++ id :: rest :=
        List.mem_append_right before (List.mem_cons_of_mem id inRest)
      have childInRange := range.between ((fromTip later inList).trans down) (.single above)
      rcases List.mem_append.mp (complete child childInRange) with earlier | here
      · exact apart child earlier childInRange later (List.mem_cons_of_mem id inRest) down
      · rcases List.mem_cons.mp here with same | inRest
        · rw [same] at above
          exact sound.acyclic id id above (.here id)
        · exact noChild child inRest above
    have moved : before ++ id :: rest = (before ++ [id]) ++ rest := by simp
    rw [moved] at complete fromTip
    refine List.Pairwise.cons (fun later inRest range => unreached range later inRest) ?_
    refine ih complete fromTip restNodup restFirst ?_
    intro earlier inBefore range later inRest
    rcases List.mem_append.mp inBefore with inBefore | same
    · exact apart earlier inBefore range later (List.mem_cons_of_mem id inRest)
    · rw [List.mem_singleton] at same
      subst same
      exact unreached range later inRest

end Store

end GitHistory
