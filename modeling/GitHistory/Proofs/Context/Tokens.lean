import GitHistory.Proofs.Context
import Mathlib.Data.List.Basic

/-! Contexts and the steps that made them. A context holds a token that was made with it, or that of
the context it was made from; tokens made for children descend from those of their parents. A
context is cancelled just when a step cancelled one with its token or with one that this descends
from. -/
namespace GitHistory.Contexts

/-- The context whose token a step passes on. -/
def Step.source? : Step → Option Nat
  | .clone source => some source
  | .share source => some source
  | .login source _ => some source
  | .fresh | .child _ | .cancel _ => none

/-- Whether a step makes a context where there are `count` of them. -/
def Step.makes (count : Nat) : Step → Bool
  | .fresh => true
  | .clone source | .child source | .share source | .login source _ => decide (source < count)
  | .cancel _ => false

/-- The steps that make contexts, each at the index of its context. -/
def record (makers : List Step) (step : Step) : List Step :=
  if step.makes makers.length then makers ++ [step] else makers

/-- The steps that made the contexts; the first one is there from the start. -/
def makers (steps : List Step) : List Step := steps.foldl record [.fresh]

/-- The contexts after steps from the start. -/
def after (steps : List Step) : Contexts := steps.foldl apply start

/-- A context holds the token that was made with the context of another index, or with itself. -/
inductive Holds (makers : List Step) : Nat → Nat → Prop where
  | own {index : Nat} {step : Step} (made : makers[index]? = some step)
      (new : step.source? = none) : Holds makers index index
  | passed {index source token : Nat} {step : Step} (made : makers[index]? = some step)
      (takes : step.source? = some source) (held : Holds makers source token) :
      Holds makers index token

/-- A token was made as a child of the one that some context holds. -/
inductive ChildOf (makers : List Step) (token above : Nat) : Prop where
  | intro {parent : Nat} (made : makers[token]? = some (.child parent))
      (held : Holds makers parent above)

/-- A token is another one, or a child of one that descends from it. -/
inductive Descends (makers : List Step) : Nat → Nat → Prop where
  | self {token : Nat} : Descends makers token token
  | child {token above ancestor : Nat} (born : ChildOf makers token above)
      (further : Descends makers above ancestor) : Descends makers token ancestor

/-- The credentials that a context was given when it was made. -/
inductive Given (makers : List Step) : Nat → Option Credentials → Prop where
  | fresh {index : Nat} (made : makers[index]? = some .fresh) : Given makers index none
  | child {index parent : Nat} (made : makers[index]? = some (.child parent)) :
      Given makers index none
  | share {index source : Nat} (made : makers[index]? = some (.share source)) :
      Given makers index none
  | login {index source : Nat} {credentials : Credentials}
      (made : makers[index]? = some (.login source credentials)) :
      Given makers index (some credentials)
  | clone {index source : Nat} {credentials : Option Credentials}
      (made : makers[index]? = some (.clone source)) (inherited : Given makers source credentials) :
      Given makers index credentials

/-! What a step does, once and for all. -/

/-- What a step makes out of the contexts before; a new token has a number above all others. -/
inductive Made (earlier : List Context) : Step → Context → Prop where
  | fresh {id : Nat} (new : ∀ context ∈ earlier, context.token.id < id) :
      Made earlier .fresh ⟨⟨id, []⟩, none⟩
  | clone {source : Nat} {context : Context} (found : earlier[source]? = some context) :
      Made earlier (.clone source) context
  | child {parent id : Nat} {context : Context} (found : earlier[parent]? = some context)
      (new : ∀ context ∈ earlier, context.token.id < id) :
      Made earlier (.child parent) ⟨context.token.child id, none⟩
  | share {source : Nat} {context : Context} (found : earlier[source]? = some context) :
      Made earlier (.share source) ⟨context.token, none⟩
  | login {source : Nat} {credentials : Credentials} {context : Context}
      (found : earlier[source]? = some context) :
      Made earlier (.login source credentials) ⟨context.token, some credentials⟩

/-- Each context was made by the step recorded for it, out of those before it. -/
structure Records (makers : List Step) (contexts : Contexts) : Prop where
  size : makers.length = contexts.all.length
  made : ∀ index step context, makers[index]? = some step →
    contexts.all[index]? = some context → Made (contexts.all.take index) step context
  bounded : ∀ context ∈ contexts.all, context.token.id < contexts.tokens

theorem Records.start : Records [.fresh] start := by
  refine ⟨rfl, ?_, by simp [Contexts.start]⟩
  intro index step context recorded found
  cases index with
  | zero =>
    obtain rfl : Step.fresh = step := by simpa using recorded
    obtain rfl : (⟨⟨0, []⟩, none⟩ : Context) = context := by simpa [Contexts.start] using found
    exact .fresh (by simp)
  | succ index => simp at recorded

theorem Records.push {makers : List Step} {contexts : Contexts} {step : Step} {context : Context}
    {tokens : Nat} (records : Records makers contexts) (made : Made contexts.all step context)
    (more : contexts.tokens ≤ tokens) (numbered : context.token.id < tokens) :
    Records (makers ++ [step])
      { contexts with all := contexts.all ++ [context], tokens := tokens } := by
  refine ⟨by simp [records.size], ?_, ?_⟩
  · intro index other result recorded found
    rcases Nat.lt_or_ge index contexts.all.length with earlier | last
    · rw [List.getElem?_append_left (records.size ▸ earlier)] at recorded
      rw [List.getElem?_append_left earlier] at found
      simpa [List.take_append_of_le_length (Nat.le_of_lt earlier)] using
        records.made index other result recorded found
    · rw [List.getElem?_append_right last] at found
      rw [List.getElem?_append_right (records.size ▸ last), records.size] at recorded
      obtain ⟨here, rfl⟩ : index - contexts.all.length = 0 ∧ context = result := by
        simpa [List.getElem?_singleton] using found
      obtain rfl : step = other := by simpa [here] using recorded
      obtain rfl : index = contexts.all.length := by omega
      simpa using made
  · intro other member
    rcases List.mem_append.mp member with old | new
    · exact Nat.lt_of_lt_of_le (records.bounded other old) more
    · rw [List.mem_singleton.mp new]
      exact numbered

/-- A step on a context makes one just when that context is there. -/
theorem Records.made_from {makers : List Step} {contexts : Contexts} {source : Nat} {step : Step}
    {make : Context → Contexts} (records : Records makers contexts)
    (makes : step.makes makers.length = decide (source < makers.length))
    (makes_new : ∀ context, contexts.all[source]? = some context →
      Records (makers ++ [step]) (make context)) :
    Records (record makers step)
      (match contexts.all[source]? with
      | some context => make context
      | none => contexts) := by
  cases found : contexts.all[source]? with
  | some context =>
    have present : source < makers.length := by
      rw [records.size]
      exact (List.getElem?_eq_some_iff.mp found).1
    simpa [record, makes, present] using makes_new context found
  | none =>
    have missing : ¬source < makers.length := by
      rw [records.size]
      exact Nat.not_lt.mpr (List.getElem?_eq_none_iff.mp found)
    simpa [record, makes, missing] using records

/-- Every step is recorded for the context that it makes. -/
theorem Records.apply {makers : List Step} {contexts : Contexts}
    (records : Records makers contexts) (step : Step) :
    Records (record makers step) (contexts.apply step) := by
  have known {source : Nat} {context : Context} (found : contexts.all[source]? = some context) :
      context.token.id < contexts.tokens :=
    records.bounded context (List.mem_of_getElem? found)
  cases step with
  | fresh => exact records.push (.fresh records.bounded) (Nat.le_succ _) (Nat.lt_succ_self _)
  | clone source =>
    refine records.made_from rfl fun context found => ?_
    exact records.push (.clone found) (Nat.le_refl _) (known found)
  | child parent =>
    refine records.made_from rfl fun context found => ?_
    exact records.push (.child found records.bounded) (Nat.le_succ _) (Nat.lt_succ_self _)
  | share source =>
    refine records.made_from rfl fun context found => ?_
    have numbered := known found
    exact records.push (.share found) (Nat.le_refl _) numbered
  | login source credentials =>
    refine records.made_from rfl fun context found => ?_
    have numbered := known found
    exact records.push (.login found) (Nat.le_refl _) numbered
  | cancel source =>
    rw [Contexts.apply]
    split
    · exact ⟨records.size, records.made, records.bounded⟩
    · exact records

theorem records_after (steps : List Step) : Records (makers steps) (after steps) := by
  suffices run : ∀ makers contexts, Records makers contexts →
      Records (steps.foldl record makers) (steps.foldl Contexts.apply contexts) from
    run _ _ .start
  induction steps with
  | nil => exact fun _ _ records => records
  | cons step rest ih => exact fun _ _ records => ih _ _ (records.apply step)

/-! Tokens: every context holds one, that of the context it was made with, and the lineage of a
token is what it descends from. -/

section
variable {makers : List Step} {contexts : Contexts}

theorem Holds.unique {index token other : Nat} (held : Holds makers index token)
    (again : Holds makers index other) : token = other := by
  induction held with
  | own made new =>
    cases again with
    | own => rfl
    | passed again takes => simp_all
  | passed made takes held ih =>
    cases again with
    | own again new => simp_all
    | passed again takesAgain further =>
      simp_all

theorem Records.step (records : Records makers contexts) {index : Nat} {context : Context}
    (found : contexts.all[index]? = some context) :
    ∃ step, makers[index]? = some step ∧ Made (contexts.all.take index) step context := by
  have bound : index < makers.length := by
    rw [records.size]
    exact (List.getElem?_eq_some_iff.mp found).1
  exact ⟨_, List.getElem?_eq_getElem bound,
    records.made index _ context (List.getElem?_eq_getElem bound) found⟩

theorem Records.context (records : Records makers contexts) {index : Nat} {step : Step}
    (made : makers[index]? = some step) :
    ∃ context, contexts.all[index]? = some context ∧
      Made (contexts.all.take index) step context := by
  have bound : index < contexts.all.length := by
    rw [← records.size]
    exact (List.getElem?_eq_some_iff.mp made).1
  exact ⟨_, List.getElem?_eq_getElem bound,
    records.made index step _ made (List.getElem?_eq_getElem bound)⟩

theorem earlier_found {index source : Nat} {before : Context}
    (found : (contexts.all.take index)[source]? = some before) :
    source < index ∧ contexts.all[source]? = some before := by
  rw [List.getElem?_take] at found
  split at found
  · exact ⟨‹_›, found⟩
  · cases found

/-- A context that passes a token on is there before the one that takes it, with that token. -/
theorem Made.passed {earlier : List Context} {step : Step} {context : Context} {source : Nat}
    (made : Made earlier step context) (takes : step.source? = some source) :
    ∃ before, earlier[source]? = some before ∧ before.token = context.token := by
  cases made with
  | fresh => cases takes
  | child => cases takes
  | clone found =>
    cases takes
    exact ⟨_, found, rfl⟩
  | share found =>
    cases takes
    exact ⟨_, found, rfl⟩
  | login found =>
    cases takes
    exact ⟨_, found, rfl⟩

theorem Records.holds (records : Records makers contexts) {index : Nat} {context : Context}
    (found : contexts.all[index]? = some context) : ∃ token, Holds makers index token := by
  induction index using Nat.strongRecOn generalizing context with
  | _ index ih =>
    obtain ⟨step, made, new⟩ := records.step found
    cases takes : step.source? with
    | none => exact ⟨index, .own made takes⟩
    | some source =>
      obtain ⟨before, present, -⟩ := new.passed takes
      obtain ⟨earlier, present⟩ := earlier_found present
      obtain ⟨token, held⟩ := ih source earlier present
      exact ⟨token, .passed made takes held⟩

theorem Records.holder (records : Records makers contexts) {index token : Nat}
    (held : Holds makers index token) : ∃ context, contexts.all[index]? = some context := by
  cases held with
  | own made => exact (records.context made).imp fun _ there => there.1
  | passed made => exact (records.context made).imp fun _ there => there.1

/-- The context that a token was made with. -/
structure Owner (makers : List Step) (contexts : Contexts) (token : Nat) (context : Context) :
    Prop where
  own : ∃ step, makers[token]? = some step ∧ step.source? = none
  found : contexts.all[token]? = some context

theorem Records.owner (records : Records makers contexts) {index token : Nat} {context : Context}
    (held : Holds makers index token) (found : contexts.all[index]? = some context) :
    token ≤ index ∧ ∃ owner, Owner makers contexts token owner ∧ owner.token = context.token := by
  induction held generalizing context with
  | own made new => exact ⟨Nat.le_refl _, context, ⟨⟨_, made, new⟩, found⟩, rfl⟩
  | passed made takes _ ih =>
    obtain ⟨before, present, same⟩ := (records.made _ _ _ made found).passed takes
    obtain ⟨earlier, present⟩ := earlier_found present
    obtain ⟨old, owner, owns, equal⟩ := ih present
    exact ⟨by omega, owner, owns, equal.trans same⟩

/-- A token that a context was made with has a number above those of all contexts before. -/
theorem Owner.newer (records : Records makers contexts) {earlier token : Nat} {old owner : Context}
    (owns : Owner makers contexts token owner) (present : contexts.all[earlier]? = some old)
    (before : earlier < token) : old.token.id < owner.token.id := by
  obtain ⟨step, made, own⟩ := owns.own
  have among : (contexts.all.take token)[earlier]? = some old := by
    rw [List.getElem?_take, if_pos before]
    exact present
  have member := List.mem_of_getElem? among
  cases records.made token step owner made owns.found with
  | fresh new => exact new old member
  | child _ new => exact new old member
  | clone | share | login => cases own

theorem Owner.unique (records : Records makers contexts) {first second : Nat}
    {one other : Context} (owns : Owner makers contexts first one)
    (ownsOther : Owner makers contexts second other) (same : one.token.id = other.token.id) :
    first = second := by
  rcases Nat.lt_trichotomy first second with before | equal | after
  · have := ownsOther.newer records owns.found before
    omega
  · exact equal
  · have := owns.newer records ownsOther.found after
    omega

theorem ChildOf.earlier (records : Records makers contexts) {token above : Nat}
    (born : ChildOf makers token above) : above < token := by
  obtain ⟨made, held⟩ := born
  obtain ⟨context, -, new⟩ := records.context made
  cases new with
  | child present =>
    obtain ⟨before, present⟩ := earlier_found present
    have := (records.owner held present).1
    omega

theorem ChildOf.unique {token above other : Nat} (born : ChildOf makers token above)
    (again : ChildOf makers token other) : above = other := by
  obtain ⟨made, held⟩ := born
  obtain ⟨madeAgain, heldAgain⟩ := again
  cases made.symm.trans madeAgain
  exact held.unique heldAgain

theorem Descends.le (records : Records makers contexts) {token ancestor : Nat}
    (descends : Descends makers token ancestor) : ancestor ≤ token := by
  induction descends with
  | self => exact Nat.le_refl _
  | child born _ ih =>
    have := born.earlier records
    omega

/-- The lineage of a token are the numbers of the tokens that it descends from. -/
theorem Records.lineage (records : Records makers contexts) {token ancestor : Nat}
    {owner other : Context} (owns : Owner makers contexts token owner)
    (above : Owner makers contexts ancestor other) :
    other.token.id ∈ owner.token.lineage ↔ Descends makers token ancestor := by
  induction token using Nat.strongRecOn generalizing owner with
  | _ token ih =>
    have itself : other.token.id = owner.token.id ↔ token = ancestor := by
      constructor
      · exact fun same => (above.unique records owns same).symm
      · rintro rfl
        cases above.found.symm.trans owns.found
        rfl
    obtain ⟨step, made, own⟩ := owns.own
    have new := records.made token step owner made owns.found
    cases new with
    | clone | share | login => cases own
    | fresh =>
      constructor
      · intro among
        obtain rfl := itself.mp (List.mem_singleton.mp among)
        exact .self
      · intro descends
        cases descends with
        | self => exact List.mem_singleton.mpr (itself.mpr rfl)
        | child born =>
          obtain ⟨again, -⟩ := born
          cases made.symm.trans again
    | @child parent _ context present =>
      obtain ⟨before, present⟩ := earlier_found present
      have inherits {holder : Nat} (held : Holds makers parent holder) :
          other.token.id ∈ context.token.lineage ↔ Descends makers holder ancestor := by
        obtain ⟨old, parentOwner, ownsParent, same⟩ := records.owner held present
        rw [← same]
        exact ih holder (by omega) ownsParent
      constructor
      · intro among
        rcases List.mem_cons.mp among with same | inherited
        · obtain rfl := itself.mp same
          exact .self
        · obtain ⟨holder, held⟩ := records.holds present
          exact .child ⟨made, held⟩ ((inherits held).mp inherited)
      · intro descends
        cases descends with
        | self => exact List.mem_cons.mpr (.inl (itself.mpr rfl))
        | child born further =>
          obtain ⟨again, held⟩ := born
          cases made.symm.trans again
          exact List.mem_cons.mpr (.inr ((inherits held).mpr further))

/-- Cancelling one context concerns another just when the token of that descends from its own. -/
theorem Records.related (records : Records makers contexts) {index token source cancelled : Nat}
    {context other : Context} (held : Holds makers index token)
    (found : contexts.all[index]? = some context) (target : Holds makers source cancelled)
    (present : contexts.all[source]? = some other) :
    other.token.id ∈ context.token.lineage ↔ Descends makers token cancelled := by
  obtain ⟨-, owner, owns, same⟩ := records.owner held found
  obtain ⟨-, ancestor, above, equal⟩ := records.owner target present
  rw [← same, ← equal]
  exact records.lineage owns above

end

/-! What is so after some steps stays so after more. -/

theorem found_in_extension {α : Type} {earlier later : List α} (grows : earlier <+: later)
    {index : Nat} {element : α} (found : earlier[index]? = some element) :
    later[index]? = some element := by
  obtain ⟨rest, rfl⟩ := grows
  rw [List.getElem?_append_left (List.getElem?_eq_some_iff.mp found).1]
  exact found

theorem kept_after (steps more : List Step) {index : Nat} {context : Context}
    (found : (after steps).all[index]? = some context) :
    (after (steps ++ more)).all[index]? = some context := by
  rw [after, List.foldl_append]
  exact found_in_extension (all_foldl _ more) found

theorem record_foldl (makers more : List Step) : makers <+: more.foldl record makers := by
  induction more generalizing makers with
  | nil => exact List.prefix_refl _
  | cons step rest ih =>
    refine List.IsPrefix.trans ?_ (ih _)
    rw [record]
    split
    · exact List.prefix_append _ _
    · exact List.prefix_refl _

theorem Holds.append {steps : List Step} {index token : Nat}
    (held : Holds (makers steps) index token) (more : List Step) :
    Holds (makers (steps ++ more)) index token := by
  have grows : makers steps <+: makers (steps ++ more) := by
    rw [makers, makers, List.foldl_append]
    exact record_foldl _ more
  induction held with
  | own made new => exact .own (found_in_extension grows made) new
  | passed made takes _ ih => exact .passed (found_in_extension grows made) takes ih

/-- One of the steps cancels a context, there by then, whose token is that of the context of `index`
or one that this descends from. -/
inductive CancelledBy (steps : List Step) (index : Nat) : Prop where
  | intro {before later : List Step} {source cancelled token : Nat}
      (split : steps = before ++ .cancel source :: later)
      (target : Holds (makers before) source cancelled)
      (held : Holds (makers steps) index token)
      (descends : Descends (makers steps) token cancelled)

/-- How contexts and their tokens behave after some steps and after any more. -/
structure FollowsTokens (steps : List Step) : Prop where
  size : (makers steps).length = (after steps).all.length
  token : ∀ index context, (after steps).all[index]? = some context →
    ∃! token, Holds (makers steps) index token
  cancelled_iff : ∀ index context, (after steps).all[index]? = some context →
    ((after steps).isCancelled context = true ↔ CancelledBy steps index)
  stays : ∀ (context : Context) (more : List Step), (after steps).isCancelled context = true →
    (after (steps ++ more)).isCancelled context = true
  /-- Cancelling what holds a child token spares what holds that of the parent or of a sibling. -/
  spares : ∀ source child parent index token context,
    Holds (makers steps) source child → ChildOf (makers steps) child parent →
    Holds (makers steps) index token →
    token = parent ∨ token ≠ child ∧ ChildOf (makers steps) token parent →
    (after steps).all[index]? = some context →
    (after (steps ++ [.cancel source])).isCancelled context = (after steps).isCancelled context
  credentials : ∀ index context, (after steps).all[index]? = some context →
    ∀ given, Given (makers steps) index given ↔ given = context.credentials
  kept : ∀ (index : Nat) (context : Context) (more : List Step),
    (after steps).all[index]? = some context →
    (after (steps ++ more)).all[index]? = some context

theorem isCancelled_after (steps : List Step) {index : Nat} {context : Context}
    (found : (after steps).all[index]? = some context) :
    (after steps).isCancelled context = true ↔ CancelledBy steps index := by
  have records := records_after steps
  rw [after, isCancelled_foldl, cancelledAmong_iff]
  constructor
  · rintro (born | ⟨before, source, later, other, split, present, lineage⟩)
    · obtain ⟨id, -, none⟩ := (isCancelled_iff _).mp born
      cases none
    · obtain ⟨cancelled, target⟩ := (records_after before).holds present
      obtain ⟨token, held⟩ := records.holds found
      refine .intro split target held ?_
      subst split
      exact (records.related held found (target.append _) (kept_after before _ present)).mp lineage
  · rintro ⟨split, target, held, descends⟩
    subst split
    obtain ⟨other, present⟩ := (records_after _).holder target
    refine .inr ⟨_, _, _, other, rfl, present, ?_⟩
    exact (records.related held found (target.append _) (kept_after _ _ present)).mpr descends

theorem isCancelled_cancel (steps : List Step) {source cancelled index token : Nat}
    {context : Context} (target : Holds (makers steps) source cancelled)
    (held : Holds (makers steps) index token) (found : (after steps).all[index]? = some context)
    (apart : ¬Descends (makers steps) token cancelled) :
    (after (steps ++ [.cancel source])).isCancelled context =
      (after steps).isCancelled context := by
  have records := records_after steps
  rw [Bool.eq_iff_iff, after, List.foldl_append, List.foldl_cons, List.foldl_nil]
  refine (isCancelled_apply (after steps) (.cancel source)).trans (or_iff_left ?_)
  rintro ⟨_, other, same, present, lineage⟩
  cases same
  exact apart ((records.related held found target present).mp lineage)

/-- Neither the parent of a token nor another of its children descends from it. -/
theorem Records.apart {makers : List Step} {contexts : Contexts}
    (records : Records makers contexts) {child parent token : Nat}
    (born : ChildOf makers child parent)
    (kin : token = parent ∨ token ≠ child ∧ ChildOf makers token parent) :
    ¬Descends makers token child := by
  have older := born.earlier records
  intro descends
  rcases kin with rfl | ⟨other, sibling⟩
  · have := descends.le records
    omega
  · cases descends with
    | self => exact other rfl
    | child again further =>
      cases again.unique sibling
      have := further.le records
      omega

theorem Given.unique {makers : List Step} {index : Nat} {one other : Option Credentials}
    (given : Given makers index one) (again : Given makers index other) : one = other := by
  induction given with
  | clone made _ ih => cases again <;> grind
  | fresh made | child made | share made | login made => cases again <;> grind

theorem given_after (steps : List Step) {index : Nat} {context : Context}
    (found : (after steps).all[index]? = some context) :
    Given (makers steps) index context.credentials := by
  have records := records_after steps
  induction index using Nat.strongRecOn generalizing context with
  | _ index ih =>
    obtain ⟨step, made, new⟩ := records.step found
    cases new with
    | fresh => exact .fresh made
    | child => exact .child made
    | share => exact .share made
    | login => exact .login made
    | clone present =>
      obtain ⟨earlier, present⟩ := earlier_found present
      exact .clone made (ih _ earlier present)

/-- After whatever steps, contexts are cancelled as the tokens that they hold say, and what they are
is settled when they are made. -/
theorem follows_tokens (steps : List Step) : FollowsTokens steps where
  size := (records_after steps).size
  token index context found := by
    obtain ⟨token, held⟩ := (records_after steps).holds found
    exact ⟨token, held, fun other again => again.unique held⟩
  cancelled_iff index context found := isCancelled_after steps found
  stays context more cancelled := by
    rw [after, List.foldl_append]
    exact (isCancelled_foldl _ more).mpr (.inl cancelled)
  spares source child parent index token context target born held kin found :=
    isCancelled_cancel steps target held found ((records_after steps).apart born kin)
  credentials index context found given := by
    have its := given_after steps found
    exact ⟨fun again => again.unique its, fun same => same ▸ its⟩
  kept index context more found := kept_after steps more found

end GitHistory.Contexts
