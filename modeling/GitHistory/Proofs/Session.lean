import GitHistory.Proofs.InProcess.Kept
import GitHistory.Proofs.Manager.Cancelled
import GitHistory.Session

/-! Whole sessions, step by step. In-process, steps that read leave everything as it was, so that
they can be repeated; no step loses anything, and under a cancelled context none does anything. With
the executable, the calls that are told of the steps are all calls that are made. -/
namespace GitHistory

/-! The record of calls. -/

/-- A manager whose operations add to the record of calls at most. -/
structure Manager.Appends (manager : Manager) : Prop where
  init : ∀ caller root url bare stage,
    stage.calls <+: (manager.init caller root url bare stage).2.calls
  commitsForRange : ∀ caller checkout request stage,
    stage.calls <+: (manager.commitsForRange caller checkout request stage).2.calls
  commitByReference : ∀ caller root reference stage,
    stage.calls <+: (manager.commitByReference caller root reference stage).2.calls
  diffStats : ∀ caller root revision other stage,
    stage.calls <+: (manager.diffStats caller root revision other stage).2.calls

theorem Manager.appends_inProcess : Manager.inProcess.Appends where
  init _ _ _ _ _ := List.prefix_rfl
  commitsForRange _ _ _ _ := List.prefix_rfl
  commitByReference _ _ _ _ := List.prefix_rfl
  diffStats _ _ _ _ _ := List.prefix_rfl

/-- A plan adds to the record if the host does. -/
theorem Executable.Plan.calls_prefix {α : Type} {host : Plan.Host Stage}
    (runs : ∀ invocation stage, stage.calls <+: (host.run invocation stage).2.calls)
    (makes : ∀ path stage, stage.calls <+: (host.makeDirectories path stage).2.calls)
    (plan : Plan α) (stage : Stage) : stage.calls <+: (plan.execute host stage).2.calls := by
  induction plan generalizing stage with
  | done result => exact List.prefix_rfl
  | run invocation next ih => exact (runs invocation stage).trans (ih _ _)
  | makeDirectories path next ih => exact (makes path stage).trans (ih _ _)

theorem Manager.appends_rehearsed (program : String) :
    (Manager.executable program Stage.rehearsalHost).Appends := by
  have runs (caller : Caller) (invocation : Invocation) (stage : Stage) :
      stage.calls <+: ((Stage.rehearsalHost caller).run invocation stage).2.calls := by
    simp only [Stage.rehearsalHost, Stage.rehearse]
    split
    · exact List.prefix_rfl
    · exact List.prefix_append stage.calls _
  have plans {α : Type} (caller : Caller) (plan : Executable.Plan α) (stage : Stage) :
      stage.calls <+: (plan.execute (Stage.rehearsalHost caller) stage).2.calls :=
    plan.calls_prefix (runs caller) (fun _ _ => List.prefix_rfl) stage
  exact {
    init := fun caller _ _ _ stage => plans caller _ stage
    commitsForRange := fun caller _ _ stage => plans caller _ stage
    commitByReference := fun caller _ _ stage => plans caller _ stage
    diffStats := fun caller _ _ _ stage => plans caller _ stage }

namespace Session

variable {manager : Manager} {session : Session} {step : Step} {steps : List Step}

/-- The session that is left by some steps. -/
def after (manager : Manager) (session : Session) (steps : List Step) : Session :=
  steps.foldl (fun session step => (session.step manager step).2) session

theorem run_cons (manager : Manager) (session : Session) (step : Step) (rest : List Step) :
    session.run manager (step :: rest) =
      ((session.step manager step).1,
        (session.step manager step).2.stage.calls.drop session.stage.calls.length) ::
        (session.step manager step).2.run manager rest := rfl

theorem run_append (manager : Manager) (session : Session) (steps more : List Step) :
    session.run manager (steps ++ more) =
      session.run manager steps ++ (session.after manager steps).run manager more := by
  induction steps generalizing session with
  | nil => rfl
  | cons step rest ih =>
    rw [List.cons_append, run_cons, run_cons, ih]
    rfl

theorem calls_operate {α : Type} {operation : StateM Stage (Except GitError α)}
    (appends : session.stage.calls <+: (operation session.stage).2.calls) :
    session.stage.calls <+: (session.operate operation).2.stage.calls := appends

theorem calls_operateShow {operation : StateM Stage (Except GitError Commit)}
    (appends : session.stage.calls <+: (operation session.stage).2.calls) :
    session.stage.calls <+: (session.operateShow operation).2.stage.calls := by
  rw [operateShow]
  split <;> rename_i ended <;> exact congrArg (·.2.stage.calls) ended ▸ appends

theorem calls_log (appends : manager.Appends) (path : String) (request : Request) :
    session.stage.calls <+:
      (manager.log session.caller path request session.stage).2.calls := by
  cases opened : openCheckout session.stage.world.tree session.stage.world.current path with
  | error error =>
    have kept : (manager.log session.caller path request session.stage).2 = session.stage :=
      congrArg Prod.snd (Manager.log_of_closed opened)
    exact kept.symm ▸ List.prefix_rfl
  | ok checkout =>
    rw [Manager.log_of_opened opened]
    exact appends.commitsForRange _ _ _ _

theorem calls_step (appends : manager.Appends) (session : Session) (step : Step) :
    session.stage.calls <+: (session.step manager step).2.stage.calls := by
  cases step with
  | backend => exact List.prefix_rfl
  | «open» path => exact List.prefix_rfl
  | init root url bare => exact calls_operate (appends.init _ _ _ _ _)
  | log root request => exact calls_operate (calls_log appends root request)
  | «show» root reference => exact calls_operateShow (appends.commitByReference _ _ _ _)
  | showHash root hash => exact calls_operateShow (appends.commitByReference _ _ _ _)
  | showTag root tag => exact calls_operateShow (appends.commitByReference _ _ _ _)
  | diff root revision other => exact calls_operate (appends.diffStats _ _ _ _ _)
  | statsOfLast =>
    rw [Session.step]
    split
    · exact calls_operate (appends.diffStats _ _ _ _ _)
    · exact List.prefix_rfl
  | cancel => exact List.prefix_rfl
  | context credentials => exact List.prefix_rfl

/-- The calls that are told of the steps are, put together, all that are made. -/
theorem calls_run (appends : manager.Appends) (session : Session) (steps : List Step) :
    session.stage.calls ++ (session.run manager steps).flatMap Prod.snd =
      (session.after manager steps).stage.calls := by
  induction steps generalizing session with
  | nil => exact List.append_nil _
  | cons step rest ih =>
    obtain ⟨made, same⟩ := calls_step appends session step
    have told : (session.step manager step).2.stage.calls.drop session.stage.calls.length =
        made := by
      rw [← same, List.drop_left]
    rw [run_cons, List.flatMap_cons, told, ← List.append_assoc, same]
    exact ih _

/-! Steps that read. -/

/-- Steps that neither make a repository nor change the context. -/
inductive Step.Reads : Step → Prop where
  | backend : Reads .backend
  | open (path : String) : Reads (.open path)
  | log (root : String) (request : Request) : Reads (.log root request)
  | show (root : RawPath) (reference : String) : Reads (.show root reference)
  | showHash (root : RawPath) (hash : String) : Reads (.showHash root hash)
  | showTag (root : RawPath) (tag : String) : Reads (.showTag root tag)
  | diff (root : RawPath) (revision : String) (other : Option String) :
      Reads (.diff root revision other)
  | statsOfLast : Reads .statsOfLast

/-- The stage and the context of a session. -/
def surroundings (session : Session) : Stage × Caller := (session.stage, session.caller)

section
variable {α : Type} {operation : StateM Stage (Except GitError α)}

theorem operate_of_kept (kept : (operation session.stage).2 = session.stage) :
    session.operate operation = ((operation session.stage).1, session) := by
  have none : decide (session.stage.cancellations < session.stage.cancellations) = false := by simp
  cases ended : operation session.stage with
  | mk result stage =>
    obtain rfl : stage = session.stage := (congrArg Prod.snd ended).symm.trans kept
    rw [operate, ended]
    dsimp only
    rw [none, Bool.or_false]

theorem answer_operateShow (session : Session) (operation : StateM Stage (Except GitError Commit)) :
    (session.operateShow operation).1 = .commit (operation session.stage).1 := by
  rw [operateShow]
  cases ended : operation session.stage with
  | mk result stage =>
    rw [operate, ended]
    cases result <;> rfl

theorem surroundings_operateShow {operation : StateM Stage (Except GitError Commit)}
    (kept : (operation session.stage).2 = session.stage) :
    (session.operateShow operation).2.surroundings = session.surroundings := by
  rw [operateShow, operate_of_kept kept]
  cases (operation session.stage).1 <;> rfl

end

theorem log_kept (caller : Caller) (path : String) (request : Request) (stage : Stage) :
    (Manager.inProcess.log caller path request stage).2 = stage := by
  cases opened : openCheckout stage.world.tree stage.world.current path with
  | error error => exact congrArg Prod.snd (Manager.log_of_closed opened)
  | ok checkout => exact congrArg Prod.snd (Manager.log_of_opened opened)

/-- A step that reads leaves the stage and the context alone. -/
theorem surroundings_step (reads : step.Reads) :
    (session.step .inProcess step).2.surroundings = session.surroundings := by
  cases reads with
  | backend => rfl
  | «open» path =>
    rw [Session.step, told, operate_of_kept rfl]
  | log root request =>
    rw [Session.step, told, operate_of_kept (log_kept _ _ _ _)]
  | «show» root reference => exact surroundings_operateShow rfl
  | showHash root hash => exact surroundings_operateShow rfl
  | showTag root tag => exact surroundings_operateShow rfl
  | diff root revision other =>
    rw [Session.step, told, operate_of_kept rfl]
  | statsOfLast =>
    rw [Session.step]
    split
    · rw [told, operate_of_kept rfl]
    · rfl

theorem surroundings_after (reads : ∀ step ∈ steps, step.Reads) :
    (session.after .inProcess steps).surroundings = session.surroundings := by
  induction steps generalizing session with
  | nil => rfl
  | cons step rest ih =>
    obtain ⟨first, others⟩ := List.forall_mem_cons.mp reads
    exact (ih others).trans (surroundings_step first)

/-- What a step is answered depends on the stage and the context, and perhaps on the last commit. -/
theorem answer_congr {first second : Session} (same : first.surroundings = second.surroundings)
    (other : step ≠ .statsOfLast) : (first.step manager step).1 = (second.step manager step).1 := by
  obtain ⟨stage, caller, last⟩ := first
  obtain ⟨_, _, again⟩ := second
  obtain ⟨rfl, rfl⟩ := Prod.mk.inj same
  have shows (operation : StateM Stage (Except GitError Commit)) :
      (operateShow ⟨stage, caller, last⟩ operation).1 =
        (operateShow ⟨stage, caller, again⟩ operation).1 := by
    rw [answer_operateShow, answer_operateShow]
  cases step with
  | statsOfLast => exact absurd rfl other
  | «show» root reference => exact shows _
  | showHash root hash => exact shows _
  | showTag root tag => exact shows _
  | _ => rfl

/-- After steps that read, a step has the answer that it would have had before them. -/
theorem answer_repeated (reads : ∀ step ∈ steps, step.Reads) (other : step ≠ .statsOfLast) :
    ((session.after .inProcess steps).step .inProcess step).1 =
      (session.step .inProcess step).1 :=
  answer_congr (surroundings_after reads) other

/-! What is kept. -/

/-- No step loses anything. -/
theorem keeps_step (session : Session) (step : Step) :
    session.stage.world.Keeps (session.step .inProcess step).2.stage.world := by
  have kept (reads : step.Reads) :
      session.stage.world.Keeps (session.step .inProcess step).2.stage.world := by
    have same : (session.step .inProcess step).2.stage = session.stage :=
      congrArg Prod.fst (surroundings_step reads)
    rw [same]
    exact .refl _
  cases step with
  | backend => exact kept .backend
  | «open» path => exact kept (.open path)
  | init root url bare => exact InProcess.keeps_init _ _ root url bare
  | log root request => exact kept (.log root request)
  | «show» root reference => exact kept (.show root reference)
  | showHash root hash => exact kept (.showHash root hash)
  | showTag root tag => exact kept (.showTag root tag)
  | diff root revision other => exact kept (.diff root revision other)
  | statsOfLast => exact kept .statsOfLast
  | cancel => exact .refl _
  | context => exact .refl _

theorem keeps_after (session : Session) (steps : List Step) :
    session.stage.world.Keeps (session.after .inProcess steps).stage.world := by
  induction steps generalizing session with
  | nil => exact .refl _
  | cons step rest ih => exact (keeps_step session step).trans (ih _)

/-- Where a repository was made the remote one is registered, now and for the rest of the
session. -/
theorem origin_stays {next : Session} {root url : String} {bare : Bool}
    (made : session.step .inProcess (.init root url bare) = (.done (.ok ()), next)) :
    ∃ route, ∀ steps,
      ((next.after .inProcess steps).stage.world.storeAt route).remotes.lookup "origin" =
        some url := by
  obtain ⟨answer, rfl⟩ := Prod.mk.inj made
  have completed : InProcess.init session.stage.world session.caller root url bare =
      (.ok (), (session.step .inProcess (.init root url bare)).2.stage.world) :=
    Prod.ext (Answer.done.inj answer) rfl
  obtain ⟨route, -, registered⟩ := InProcess.init_ok completed
  refine ⟨route, fun steps => ?_⟩
  exact ((keeps_after _ steps).stores route).remotes "origin" url registered

/-! Cancelled contexts. -/

/-- Answers that nothing was done for. -/
inductive Answer.Stopped : Answer → Prop where
  | backend (backend : Backend) : Stopped (.backend backend)
  | checkout (result : Except GitError Checkout) : Stopped (.checkout result)
  | done : Stopped (.done (.error .cancelled))
  | commits (error : GitError) : Stopped (.commits (.error error))
  | commit : Stopped (.commit (.error .cancelled))
  | stats : Stopped (.stats (.error .cancelled))
  | nothing : Stopped .nothing

theorem log_cancelled {caller : Caller} (cancelled : caller.cancelled = true) (path : String)
    (request : Request) (stage : Stage) :
    ∃ error, (Manager.inProcess.log caller path request stage).1 = .error error := by
  have reads := readsFail_inProcess cancelled stage
  cases opened : openCheckout stage.world.tree stage.world.current path with
  | error error =>
    rw [Manager.log_of_closed opened]
    exact ⟨error, rfl⟩
  | ok checkout =>
    rw [Manager.log_of_opened opened]
    exact ⟨_, congrArg Prod.fst (reads.commitsForRange checkout request)⟩

/-- Under a cancelled context a step does nothing, and only a new context ends that. -/
theorem step_cancelled (cancelled : session.caller.cancelled = true)
    (same : ∀ credentials, step ≠ .context credentials) :
    (session.step .inProcess step).1.Stopped ∧
      (session.step .inProcess step).2.surroundings = session.surroundings := by
  have reads := readsFail_inProcess cancelled session.stage
  have shows {operation : StateM Stage (Except GitError Commit)}
      (fails : operation session.stage = (.error .cancelled, session.stage)) :
      (session.operateShow operation).1.Stopped ∧
        (session.operateShow operation).2.surroundings = session.surroundings := by
    rw [answer_operateShow, fails]
    exact ⟨.commit, surroundings_operateShow (congrArg Prod.snd fails)⟩
  cases step with
  | backend => exact ⟨.backend _, rfl⟩
  | «open» path => exact ⟨.checkout _, surroundings_step (.open path)⟩
  | init root url bare =>
    have fails := init_inProcess cancelled session.stage root url bare
    rw [Session.step, told, operate_of_kept (congrArg Prod.snd fails), fails]
    exact ⟨.done, rfl⟩
  | log root request =>
    obtain ⟨error, fails⟩ := log_cancelled cancelled root request session.stage
    rw [Session.step, told, operate_of_kept (log_kept _ _ _ _), fails]
    exact ⟨.commits error, rfl⟩
  | «show» root reference => exact shows (reads.commitByReference root reference)
  | showHash root hash => exact shows (reads.commitByReference root hash)
  | showTag root tag => exact shows (reads.commitByReference root tag)
  | diff root revision other =>
    have fails := reads.diffStats root revision other
    rw [Session.step, told, operate_of_kept (congrArg Prod.snd fails), fails]
    exact ⟨.stats, rfl⟩
  | statsOfLast =>
    rw [Session.step]
    split
    · rename_i commit _
      have fails := reads.diffStats commit.checkoutPath commit.hash none
      have kept : (Manager.inProcess.statsForCommit session.caller commit session.stage).2 =
          session.stage := congrArg Prod.snd fails
      rw [told, operate_of_kept kept, Manager.statsForCommit, fails]
      exact ⟨.stats, rfl⟩
    · exact ⟨.nothing, rfl⟩
  | cancel =>
    refine ⟨.nothing, Prod.ext rfl ?_⟩
    change { session.caller with cancelled := true } = session.caller
    rw [← cancelled]
  | context credentials => exact absurd rfl (same credentials)

/-- Under a cancelled context nothing is done until there is a new one. -/
theorem run_cancelled (cancelled : session.caller.cancelled = true)
    (same : ∀ step ∈ steps, ∀ credentials, step ≠ .context credentials) :
    (∀ entry ∈ session.run .inProcess steps, entry.1.Stopped ∧ entry.2 = []) ∧
      (session.after .inProcess steps).surroundings = session.surroundings := by
  induction steps generalizing session with
  | nil => exact ⟨(fun _ member => nomatch member), rfl⟩
  | cons step rest ih =>
    obtain ⟨first, others⟩ := List.forall_mem_cons.mp same
    obtain ⟨stopped, kept⟩ := step_cancelled cancelled first
    have stage : (session.step .inProcess step).2.stage = session.stage := congrArg Prod.fst kept
    have caller : (session.step .inProcess step).2.caller = session.caller := congrArg Prod.snd kept
    obtain ⟨later, ends⟩ := ih (caller ▸ cancelled) others
    refine ⟨?_, ends.trans kept⟩
    rw [run_cons]
    refine List.forall_mem_cons.mpr ⟨⟨stopped, ?_⟩, later⟩
    rw [stage, List.drop_length]

end Session

end GitHistory
