import GitHistory.Proofs.Store.Resolved
import Mathlib.Data.List.Perm.Subperm

/-! Chains of tags. A chain that ends has no tag twice, for what follows a tag is always the same;
so it is no longer than there are objects, and peeling gets to its end. -/
namespace GitHistory.Store

variable {store : Store}

/-- The tags on the way from a target to what they are about in the end. -/
inductive TagsTo (store : Store) : List ObjectId → Target → Target → Prop where
  | none (target : Target) : TagsTo store [] target target
  | tag {id : ObjectId} {next last : Target} {tags : List ObjectId}
      (about : store.about (.tag id) = .ok next) (further : TagsTo store tags next last) :
      TagsTo store (id :: tags) (.tag id) last

/-- A target from which no tag leads on. -/
def IsEnd (store : Store) (target : Target) : Prop :=
  ∀ id next, target = .tag id → store.about target ≠ .ok next

theorem isEnd_of_kind {target : Target} (kind : target.kind ≠ .tag) : store.IsEnd target := by
  rintro id next rfl
  exact absurd rfl kind

namespace TagsTo

variable {tags others : List ObjectId} {target last other : Target} {id : ObjectId}

theorem unique (chain : store.TagsTo tags target last) (toOther : store.TagsTo others target other)
    (isEnd : store.IsEnd last) (isOtherEnd : store.IsEnd other) : tags = others := by
  induction chain generalizing others with
  | none =>
    cases toOther with
    | none => rfl
    | tag about further => exact absurd about (isEnd _ _ rfl)
  | tag about further ih =>
    cases toOther with
    | none => exact absurd about (isOtherEnd _ _ rfl)
    | tag aboutOther furtherOther =>
      cases about.symm.trans aboutOther
      rw [ih furtherOther isEnd]

/-- From every tag on the way the rest of the way is shorter. -/
theorem from_tag (chain : store.TagsTo tags target last) (member : id ∈ tags) :
    ∃ rest, store.TagsTo (id :: rest) (.tag id) last ∧ rest.length < tags.length := by
  induction chain with
  | none => cases member
  | @tag first next last tags about further ih =>
    rcases List.mem_cons.mp member with rfl | later
    · exact ⟨tags, .tag about further, Nat.lt_succ_self _⟩
    · obtain ⟨rest, fromId, shorter⟩ := ih later
      exact ⟨rest, fromId, Nat.lt_succ_of_lt shorter⟩

theorem nodup (chain : store.TagsTo tags target last) (isEnd : store.IsEnd last) : tags.Nodup := by
  induction chain with
  | none => exact List.nodup_nil
  | @tag first next last tags about further ih =>
    refine List.nodup_cons.mpr ⟨?_, ih isEnd⟩
    intro again
    obtain ⟨rest, fromFirst, shorter⟩ := further.from_tag again
    have same : first :: tags = first :: rest :=
      unique (.tag about further) fromFirst isEnd isEnd
    rw [(List.cons.inj same).2] at shorter
    exact Nat.lt_irrefl _ shorter

theorem subset_objects (chain : store.TagsTo tags target last) :
    tags ⊆ store.objects.map Prod.fst := by
  induction chain with
  | none => exact List.nil_subset _
  | @tag first next last tags about further ih =>
    refine List.cons_subset.mpr ⟨?_, ih⟩
    rw [Store.about] at about
    split at about
    · rename_i found
      obtain ⟨before, after, listed, -⟩ := List.lookup_eq_some_iff.mp found
      rw [listed]
      simp
    · cases about

theorem length_le (chain : store.TagsTo tags target last) (isEnd : store.IsEnd last) :
    tags.length ≤ store.objects.length := by
  have within := ((chain.nodup isEnd).subperm chain.subset_objects).length_le
  rwa [List.length_map] at within

/-- A chain that is not empty ends with what its last tag is about. -/
theorem exists_last (chain : store.TagsTo tags target last) (some : tags ≠ []) :
    ∃ front id, tags.length = front.length + 1 ∧ store.TagsTo front target (.tag id) ∧
      store.about (.tag id) = .ok last := by
  induction chain with
  | none => exact absurd rfl some
  | @tag first next last tags about further ih =>
    by_cases single : tags = []
    · subst single
      cases further with
      | none => exact ⟨[], first, rfl, .none _, about⟩
    · obtain ⟨front, id, length, toLast, aboutLast⟩ := ih single
      exact ⟨first :: front, id, by rw [List.length_cons, length]; rfl, .tag about toLast,
        aboutLast⟩

theorem starts_with_tag (chain : store.TagsTo tags target (.tag id)) : ∃ first, target = .tag first := by
  cases chain with
  | none => exact ⟨id, rfl⟩
  | tag about further => exact ⟨_, rfl⟩

/-- One gets along a chain in as many turns as it has tags. -/
theorem follow_eq (chain : store.TagsTo tags target (.tag id)) (turns : Nat) :
    store.follow (some .commit) (tags.length + turns) target =
      store.follow (some .commit) turns (.tag id) := by
  generalize same : Target.tag id = last at chain
  induction chain with
  | none => rw [List.length_nil, Nat.zero_add]
  | @tag first next last tags about further ih =>
    subst same
    obtain ⟨second, rfl⟩ := further.starts_with_tag
    rw [List.length_cons, Nat.add_right_comm, follow, about]
    exact ih rfl

end TagsTo

/-! Peeling. -/

section
variable {tags : List ObjectId} {target last : Target} {id : ObjectId}

/-- What is found where a chain of tags goes on from a tag. -/
theorem peelToCommit_tag (chain : store.TagsTo tags target (.tag id))
    (short : tags.length ≤ store.objects.length) :
    store.peelToCommit target =
      ((store.follow (some .commit) (store.objects.length - tags.length + 2) (.tag id)).mapError
        fun fault => unpeelable target (some .commit) fault.code).map Target.id := by
  have turns : store.chainLimit = tags.length + (store.objects.length - tags.length + 2) := by
    rw [chainLimit]
    omega
  have followed := chain.follow_eq (store.objects.length - tags.length + 2)
  obtain ⟨first, rfl⟩ := chain.starts_with_tag
  have other : Target.kind (.tag first) ≠ .commit := nofun
  have leads : (!leadsTo (Target.tag first).kind .commit) = false := rfl
  rw [peelToCommit, peel, if_neg other, leads, if_neg Bool.false_ne_true, turns, followed]

/-- A chain of tags that ends at a commit leads to it. -/
theorem peelToCommit_of_commit (chain : store.TagsTo tags target (.commit id)) :
    store.peelToCommit target = .ok id := by
  by_cases some : tags = []
  · subst some
    cases chain with
    | none => rfl
  · have short := chain.length_le (isEnd_of_kind nofun)
    obtain ⟨front, last, length, toLast, about⟩ := chain.exists_last some
    rw [peelToCommit_tag toLast (by omega), follow, about]
    rfl

end

end GitHistory.Store
