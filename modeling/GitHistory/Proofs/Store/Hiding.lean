import GitHistory.Store.Walk
import Mathlib.Algebra.GroupWithZero.Nat

/-! Hiding what a commit is known to reach. The turns suffice: each takes a commit from the work
list, and the parents of a commit come into it once. So at the end of it no newly hidden commit
has a known parent that is not hidden. -/
namespace GitHistory

section Outstanding

variable {β : Type} {size : β → Nat} {entries : List (ObjectId × β)} {done : List ObjectId}

/-- What is left of entries when some of them are done. -/
def outstanding (size : β → Nat) (entries : List (ObjectId × β)) (done : List ObjectId) : Nat :=
  (entries.map fun entry => if entry.1 ∈ done then 0 else size entry.2).sum

theorem outstanding_cons_le (id : ObjectId) :
    outstanding size entries (id :: done) ≤ outstanding size entries done := by
  induction entries with
  | nil => exact Nat.le_refl _
  | cons entry rest ih =>
    simp only [outstanding, List.map_cons, List.sum_cons, List.mem_cons] at ih ⊢
    by_cases isDone : entry.1 ∈ done
    · simp only [isDone, or_true, ↓reduceIte]
      omega
    · by_cases same : entry.1 = id
      · simp only [same, true_or, ↓reduceIte]
        omega
      · simp only [isDone, same, or_false, ↓reduceIte]
        omega

/-- An entry that gets done counts no more. -/
theorem outstanding_cons_add_le {id : ObjectId} {value : β}
    (found : entries.lookup id = some value) (fresh : id ∉ done) :
    outstanding size entries (id :: done) + size value ≤ outstanding size entries done := by
  induction entries with
  | nil => cases found
  | cons entry rest ih =>
    obtain ⟨key, entryValue⟩ := entry
    have step : outstanding size rest (id :: done) ≤ outstanding size rest done :=
      outstanding_cons_le id
    rw [List.lookup_cons] at found
    by_cases same : id = key
    · subst same
      simp only [beq_self_eq_true, Option.some.injEq] at found
      subst found
      simp only [outstanding, List.map_cons, List.sum_cons, List.mem_cons] at step ⊢
      simp only [fresh, or_false, ↓reduceIte]
      omega
    · have different : (id == key) = false := beq_eq_false_iff_ne.mpr same
      rw [different] at found
      have further := ih found
      have other : ¬ key = id := fun equal => same equal.symm
      simp only [outstanding, List.map_cons, List.sum_cons, List.mem_cons] at further ⊢
      simp only [other, false_or]
      omega

theorem outstanding_le_nil : outstanding size entries done ≤ outstanding size entries [] := by
  induction done with
  | nil => exact Nat.le_refl _
  | cons id rest ih => exact Nat.le_trans (outstanding_cons_le id) ih

theorem foldl_add_size (size : β → Nat) (entries : List (ObjectId × β)) (count : Nat) :
    entries.foldl (fun count entry => count + size entry.2) count =
      count + outstanding size entries [] := by
  induction entries generalizing count with
  | nil => rfl
  | cons entry rest ih =>
    rw [List.foldl_cons, ih]
    simp only [outstanding, List.map_cons, List.sum_cons, List.not_mem_nil, ↓reduceIte]
    omega

end Outstanding

namespace Walk

variable {walk : Walk} {turns : Nat} {ids : List ObjectId} {id : ObjectId}

def linksOf (link : Link) : Nat := link.parents.length

theorem linkCount_eq (walk : Walk) : walk.linkCount = outstanding linksOf walk.links [] := by
  have sum : walk.linkCount = 0 + outstanding linksOf walk.links [] :=
    foldl_add_size linksOf walk.links 0
  rwa [Nat.zero_add] at sum

theorem isHidden_iff : walk.isHidden id = true ↔ id ∈ walk.hidden := by
  rw [isHidden, List.contains_iff_mem]

theorem mem_hide (walk : Walk) (id other : ObjectId) :
    other ∈ (walk.hide id).hidden ↔ other = id ∨ other ∈ walk.hidden := by
  rw [hide]
  split
  · rename_i already
    constructor
    · exact Or.inr
    · rintro (rfl | old)
      · exact isHidden_iff.mp already
      · exact old
  · exact List.mem_cons

/-! Nothing but the hidden commits changes. -/

@[simp] theorem links_hide (walk : Walk) (id : ObjectId) : (walk.hide id).links = walk.links := by
  rw [hide]
  split <;> rfl

@[simp] theorem seen_hide (walk : Walk) (id : ObjectId) : (walk.hide id).seen = walk.seen := by
  rw [hide]
  split <;> rfl

@[simp] theorem expanded_hide (walk : Walk) (id : ObjectId) :
    (walk.hide id).expanded = walk.expanded := by
  rw [hide]
  split <;> rfl

theorem hideAll_rest (turns : Nat) (ids : List ObjectId) (walk : Walk) :
    (walk.hideAll turns ids).links = walk.links ∧ (walk.hideAll turns ids).seen = walk.seen ∧
      (walk.hideAll turns ids).expanded = walk.expanded := by
  induction turns generalizing walk ids with
  | zero =>
    rw [hideAll]
    exact ⟨rfl, rfl, rfl⟩
  | succ turns ih =>
    cases ids with
    | nil => exact ⟨rfl, rfl, rfl⟩
    | cons id rest =>
      rw [hideAll]
      split
      · exact ih rest walk
      · have further := ih (walk.parents id ++ rest) (walk.hide id)
        rwa [links_hide, seen_hide, expanded_hide] at further

@[simp] theorem links_hideBehind (walk : Walk) (id : ObjectId) :
    (walk.hideBehind id).links = walk.links := (hideAll_rest _ _ walk).1

@[simp] theorem seen_hideBehind (walk : Walk) (id : ObjectId) :
    (walk.hideBehind id).seen = walk.seen := (hideAll_rest _ _ walk).2.1

@[simp] theorem expanded_hideBehind (walk : Walk) (id : ObjectId) :
    (walk.hideBehind id).expanded = walk.expanded := (hideAll_rest _ _ walk).2.2

theorem parents_congr {first second : Walk} (same : first.links = second.links) (id : ObjectId) :
    first.parents id = second.parents id := by
  rw [parents, parents, same]

theorem time_congr {first second : Walk} (same : first.links = second.links) (id : ObjectId) :
    first.time id = second.time id := by
  rw [time, time, same]

/-! What gets hidden. -/

theorem hidden_subset_hideAll (turns : Nat) (ids : List ObjectId) (walk : Walk) :
    walk.hidden ⊆ (walk.hideAll turns ids).hidden := by
  induction turns generalizing walk ids with
  | zero =>
    rw [hideAll]
    exact List.Subset.refl _
  | succ turns ih =>
    cases ids with
    | nil => exact List.Subset.refl _
    | cons id rest =>
      rw [hideAll]
      split
      · exact ih rest walk
      · intro other old
        exact ih _ (walk.hide id) ((walk.mem_hide id other).mpr (Or.inr old))

/-- A property that parents inherit is one of all hidden commits, if it is of those in the work
list. -/
theorem hideAll_inherits {property : ObjectId → Prop}
    (inherits : ∀ id, property id → ∀ parent ∈ walk.parents id, property parent)
    (start : ∀ id ∈ ids, property id) (old : ∀ id ∈ walk.hidden, property id) :
    ∀ id ∈ (walk.hideAll turns ids).hidden, property id := by
  induction turns generalizing walk ids with
  | zero =>
    rw [hideAll]
    exact old
  | succ turns ih =>
    cases ids with
    | nil => exact old
    | cons id rest =>
      have here := start id List.mem_cons_self
      have later : ∀ other ∈ rest, property other := fun other member =>
        start other (List.mem_cons_of_mem id member)
      rw [hideAll]
      split
      · exact ih inherits later old
      · apply ih
        · intro other holds parent above
          rw [parents_congr (links_hide walk id)] at above
          exact inherits other holds parent above
        · intro other member
          rcases List.mem_append.mp member with above | member
          · exact inherits id here other above
          · exact later other member
        · intro other member
          rcases (walk.mem_hide id other).mp member with same | before
          · exact same ▸ here
          · exact old other before

/-- With turns for the work list and for the parents of everything that is not hidden yet, the
work list gets hidden, and so do the parents of what gets hidden. -/
theorem hideAll_spec
    (enough : ids.length + outstanding linksOf walk.links walk.hidden ≤ turns) :
    ids ⊆ (walk.hideAll turns ids).hidden ∧
      ∀ id ∈ (walk.hideAll turns ids).hidden, id ∉ walk.hidden →
        ∀ parent ∈ walk.parents id, parent ∈ (walk.hideAll turns ids).hidden := by
  induction turns generalizing walk ids with
  | zero =>
    have empty : ids = [] := List.length_eq_zero_iff.mp (by omega)
    rw [hideAll, empty]
    exact ⟨List.nil_subset _, fun id now before => absurd now before⟩
  | succ turns ih =>
    cases ids with
    | nil => exact ⟨List.nil_subset _, fun id now before => absurd now before⟩
    | cons id rest =>
      rw [List.length_cons] at enough
      rw [hideAll]
      split
      · rename_i already
        have restEnough : rest.length + outstanding linksOf walk.links walk.hidden ≤ turns := by
          omega
        obtain ⟨all, spread⟩ := ih restEnough
        refine ⟨List.cons_subset.mpr ⟨?_, all⟩, spread⟩
        exact hidden_subset_hideAll turns rest walk (isHidden_iff.mp already)
      · rename_i visible
        have fresh : id ∉ walk.hidden := fun member => visible (isHidden_iff.mpr member)
        have now : (walk.hide id).hidden = id :: walk.hidden := by rw [hide, if_neg visible]
        have counted : outstanding linksOf walk.links (id :: walk.hidden) +
            (walk.parents id).length ≤ outstanding linksOf walk.links walk.hidden := by
          rw [parents]
          cases found : walk.links.lookup id with
          | none => exact outstanding_cons_le id
          | some link => exact outstanding_cons_add_le found fresh
        have restEnough : (walk.parents id ++ rest).length +
            outstanding linksOf (walk.hide id).links (walk.hide id).hidden ≤ turns := by
          rw [links_hide, now, List.length_append]
          omega
        obtain ⟨all, spread⟩ := ih restEnough
        obtain ⟨parentsHidden, restHidden⟩ := List.append_subset.mp all
        have kept := hidden_subset_hideAll turns (walk.parents id ++ rest) (walk.hide id)
        refine ⟨List.cons_subset.mpr ⟨?_, restHidden⟩, ?_⟩
        · exact kept ((walk.mem_hide id id).mpr (Or.inl rfl))
        · intro other member before parent above
          by_cases same : other = id
          · exact parentsHidden (same ▸ above)
          · apply spread other member
            · rw [walk.mem_hide]
              rintro (equal | old)
              · exact same equal
              · exact before old
            · rw [parents_congr (links_hide walk id)]
              exact above

theorem hidden_subset_hideBehind (walk : Walk) (id : ObjectId) :
    walk.hidden ⊆ (walk.hideBehind id).hidden := hidden_subset_hideAll _ _ walk

theorem hideBehind_spec (walk : Walk) (id : ObjectId) :
    walk.parents id ⊆ (walk.hideBehind id).hidden ∧
      ∀ other ∈ (walk.hideBehind id).hidden, other ∉ walk.hidden →
        ∀ parent ∈ walk.parents other, parent ∈ (walk.hideBehind id).hidden := by
  apply hideAll_spec
  have atMost : outstanding linksOf walk.links walk.hidden ≤ outstanding linksOf walk.links [] :=
    outstanding_le_nil
  rw [linkCount_eq]
  omega

theorem hideBehind_inherits {property : ObjectId → Prop}
    (inherits : ∀ id, property id → ∀ parent ∈ walk.parents id, property parent)
    (here : property id) (old : ∀ other ∈ walk.hidden, property other) :
    ∀ other ∈ (walk.hideBehind id).hidden, property other :=
  hideAll_inherits inherits (inherits id here) old

end Walk

end GitHistory
