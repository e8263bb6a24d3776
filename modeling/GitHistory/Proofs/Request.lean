import GitHistory.Request
import GitHistory.Proofs.Json.Order

/-! A request is read back from the object that is printed for it, whatever the order of its
members; a bound that there is none of is printed as null. -/
namespace GitHistory.Request

open Json (Reader Gap Spacing Value Document printedMembers)
open Json.Reader

/-- The members that are printed, in their order. -/
def members (request : Request) : List (String × Value) := [
  ("branch_ref", .string request.branchRef),
  ("branch", .string request.branch),
  ("commit_count", .number request.count.toNat),
  ("from_commit_hash", .ofOptional request.oldest),
  ("to_commit_hash", .ofOptional request.newest)]

theorem toJson_eq (request : Request) : request.toJson = .object request.members := rfl

theorem members_scalar (request : Request) :
    ∀ member ∈ request.members, member.2.isScalar = true := by
  cases oldest : request.oldest <;> cases newest : request.newest <;>
    simp [members, oldest, newest, Value.ofOptional, Value.isScalar]

/-- The fields whose names have been read. -/
def Fields.seen (request : Request) (names : List String) : Fields where
  branchRef := if "branch_ref" ∈ names then some request.branchRef else none
  branch := if "branch" ∈ names then some request.branch else none
  count := if "commit_count" ∈ names then some request.count else none
  oldest := if "from_commit_hash" ∈ names then some request.oldest else none
  newest := if "to_commit_hash" ∈ names then some request.newest else none

variable (spacing : Spacing) (level : Nat)

/-- A member that comes for the first time fills the field of its name. -/
theorem Fields.steps_member {request : Request} {name : String} {value : Value}
    {names : List String} (member : (name, value) ∈ request.members) (fresh : name ∉ names) :
    Steps Fields.step (Fields.seen request names) name (value.document spacing level)
      (Fields.seen request (name :: names)) := by
  simp only [members, List.mem_cons, Prod.mk.injEq, List.not_mem_nil, or_false] at member
  rcases member with ⟨rfl, rfl⟩ | ⟨rfl, rfl⟩ | ⟨rfl, rfl⟩ | ⟨rfl, rfl⟩ | ⟨rfl, rfl⟩
  · have steps := (takes_string .string request.branchRef).steps
      (fun (given : Fields) value => { given with branchRef := value })
      (by simp [Fields.step, Fields.seen, fresh] : Fields.step (seen request names) "branch_ref" = _)
    simpa [Fields.seen, Value.document] using steps
  · have steps := (takes_string .string request.branch).steps
      (fun (given : Fields) value => { given with branch := value })
      (by simp [Fields.step, Fields.seen, fresh] : Fields.step (seen request names) "branch" = _)
    simpa [Fields.seen, Value.document] using steps
  · have steps := (takes_count .size request.count).steps
      (fun (given : Fields) value => { given with count := value })
      (by simp [Fields.step, Fields.seen, fresh] : Fields.step (seen request names) "commit_count" = _)
    simpa [Fields.seen, Value.document] using steps
  · have steps := (takes_ofOptional spacing level request.oldest).steps
      (fun (given : Fields) value => { given with oldest := value })
      (by simp [Fields.step, Fields.seen, fresh] : Fields.step (seen request names) "from_commit_hash" = _)
    simpa [Fields.seen, Value.document] using steps
  · have steps := (takes_ofOptional spacing level request.newest).steps
      (fun (given : Fields) value => { given with newest := value })
      (by simp [Fields.step, Fields.seen, fresh] : Fields.step (seen request names) "to_commit_hash" = _)
    simpa [Fields.seen, Value.document] using steps

theorem Fields.seen_none (request : Request) : Fields.seen request [] = {} := by
  simp [Fields.seen]

theorem Fields.seen_all (request : Request) {names : List String}
    (all : ∀ member ∈ request.members, member.1 ∈ names) :
    Fields.seen request names = ⟨some request.branchRef, some request.branch, some request.count,
      some request.oldest, some request.newest⟩ := by
  simp only [members, List.forall_mem_cons] at all
  obtain ⟨branchRef, branch, count, oldest, newest, -⟩ := all
  simp [Fields.seen, branchRef, branch, count, oldest, newest]

/-- A request is read back from the members that are printed for it, in any order. -/
theorem takes_members {request : Request} {moved : List (String × Value)}
    (perm : request.members.Perm moved) :
    Takes reader ((Value.object moved).document spacing level) request := by
  have once : (request.members.map Prod.fst).Nodup := by
    simp [members]
  have folds := Folds.inAnyOrder
    (fun _ _ _ member fresh => Fields.steps_member spacing (level + 1) member fresh) once perm
  rw [Fields.seen_none, Fields.seen_all request fun member inside =>
    List.mem_reverse.mpr (List.mem_map_of_mem (perm.mem_iff.mp inside))] at folds
  intro gap rest _
  have read := folds.members Gap.none rest
  simp only [Gap.none_chars, List.nil_append] at read
  rw [reader, record, accept?_bind, accept?_valueToken]
  simp [Value.document, Document.written, read, Fields.finish]

theorem takes_reordered {request : Request} {value : Value}
    (reordered : request.toJson.Reordered value) :
    Takes reader (value.document spacing level) request := by
  rw [toJson_eq] at reordered
  obtain ⟨moved, rfl, perm⟩ := reordered.of_scalars request.members_scalar
  exact takes_members spacing level perm

end GitHistory.Request
