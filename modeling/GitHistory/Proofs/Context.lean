import GitHistory.Context

/-! When a context is cancelled: once a step cancels one with its token or with a token that its
own descends from, and from then on whatever else is done. -/
namespace GitHistory.Contexts

/-- One of the steps cancels a context whose token is that of `context` or an ancestor of it. -/
inductive CancelledAmong (context : Context) : Contexts → List Step → Prop where
  | here {contexts : Contexts} {source : Nat} {other : Context} {rest : List Step}
      (found : contexts.all[source]? = some other)
      (related : other.token.id ∈ context.token.lineage) :
      CancelledAmong context contexts (.cancel source :: rest)
  | later {contexts : Contexts} {step : Step} {rest : List Step}
      (among : CancelledAmong context (contexts.apply step) rest) :
      CancelledAmong context contexts (step :: rest)

variable {context : Context}

theorem isCancelled_iff (contexts : Contexts) :
    contexts.isCancelled context = true ↔
      ∃ id ∈ context.token.lineage, id ∈ contexts.cancelled := by
  simp [isCancelled, Token.isCancelled]

theorem cancelled_apply_of_ne (contexts : Contexts) {step : Step}
    (other : ∀ source, step ≠ .cancel source) :
    (contexts.apply step).cancelled = contexts.cancelled := by
  cases step with
  | fresh => rfl
  | cancel source => exact absurd rfl (other source)
  | clone source | child source | share source | login source =>
    rw [apply]
    split <;> rfl

theorem isCancelled_apply (contexts : Contexts) (step : Step) :
    (contexts.apply step).isCancelled context = true ↔
      contexts.isCancelled context = true ∨
        ∃ source other, step = .cancel source ∧ contexts.all[source]? = some other ∧
          other.token.id ∈ context.token.lineage := by
  simp only [isCancelled_iff]
  by_cases cancels : ∃ source, step = .cancel source
  · obtain ⟨source, rfl⟩ := cancels
    cases found : contexts.all[source]? with
    | none => simp [apply, found]
    | some other => simp [apply, found, and_or_left, exists_or, or_comm]
  · have others : ∀ source, step ≠ .cancel source := fun source same => cancels ⟨source, same⟩
    simp [cancelled_apply_of_ne contexts others, others]

/-- What is cancelled stays so, and nothing is cancelled but by the steps. -/
theorem isCancelled_foldl (contexts : Contexts) (steps : List Step) :
    (steps.foldl apply contexts).isCancelled context = true ↔
      contexts.isCancelled context = true ∨ CancelledAmong context contexts steps := by
  induction steps generalizing contexts with
  | nil =>
    constructor
    · exact Or.inl
    · rintro (cancelled | among)
      · exact cancelled
      · cases among
  | cons step rest ih =>
    rw [List.foldl_cons, ih, isCancelled_apply]
    constructor
    · rintro ((cancelled | ⟨source, other, rfl, found, related⟩) | among)
      · exact .inl cancelled
      · exact .inr (.here found related)
      · exact .inr (.later among)
    · rintro (cancelled | among)
      · exact .inl (.inl cancelled)
      · cases among with
        | here found related => exact .inl (.inr ⟨_, _, rfl, found, related⟩)
        | later among => exact .inr among

theorem cancelledAmong_iff (contexts : Contexts) (steps : List Step) :
    CancelledAmong context contexts steps ↔
      ∃ before source later other, steps = before ++ .cancel source :: later ∧
        (before.foldl apply contexts).all[source]? = some other ∧
        other.token.id ∈ context.token.lineage := by
  constructor
  · intro among
    induction among with
    | here found related => exact ⟨[], _, _, _, rfl, found, related⟩
    | later _ ih =>
      obtain ⟨before, source, later, other, rfl, found, related⟩ := ih
      exact ⟨_ :: before, source, later, other, rfl, found, related⟩
  · rintro ⟨before, source, later, other, rfl, found, related⟩
    induction before generalizing contexts with
    | nil => exact .here found related
    | cons step before ih => exact .later (ih _ found)

/-- A context that there is stays as it is, whatever is done. -/
theorem all_apply (contexts : Contexts) (step : Step) :
    contexts.all <+: (contexts.apply step).all := by
  cases step with
  | fresh => exact List.prefix_append _ _
  | clone source | child source | share source | login source =>
    rw [apply]
    split
    · exact List.prefix_append _ _
    · exact List.prefix_refl _
  | cancel source =>
    rw [apply]
    split <;> exact List.prefix_refl _

theorem all_foldl (contexts : Contexts) (steps : List Step) :
    contexts.all <+: (steps.foldl apply contexts).all := by
  induction steps generalizing contexts with
  | nil => exact List.prefix_refl _
  | cons step rest ih => exact (all_apply contexts step).trans (ih _)

end GitHistory.Contexts
