import GitHistory.Manager

/-!
Operations one after the other with one manager. A session has a context, which may be replaced,
and remembers the last commit that was shown.
-/
namespace GitHistory

structure Session where
  stage : Stage
  caller : Caller
  last : Option Commit := none

namespace Session

inductive Step where
  | backend
  | open (path : String)
  | init (root url : String) (bare : Bool)
  | log (root : String) (request : Request)
  | show (root : RawPath) (reference : String)
  | showHash (root : RawPath) (hash : String)
  | showTag (root : RawPath) (tag : String)
  | diff (root : RawPath) (revision : String) (other : Option String)
  | statsOfLast
  | cancel
  | context (credentials : Option Credentials)

inductive Answer where
  | backend (backend : Backend)
  | checkout (result : Except GitError Checkout)
  | done (result : Except GitError Unit)
  | commits (result : Except GitError (List Commit))
  | commit (result : Except GitError Commit)
  | stats (result : Except GitError FileStats)
  | nothing

/-- Does an operation on the stage; a reply may cancel the context meanwhile. -/
def operate {α : Type} (session : Session) (operation : StateM Stage (Except GitError α)) :
    Except GitError α × Session :=
  let (result, stage) := operation session.stage
  let cancelled := session.caller.cancelled ||
    decide (session.stage.cancellations < stage.cancellations)
  let caller := { session.caller with cancelled := cancelled }
  (result, { session with stage := stage, caller := caller })

/-- Does an operation that gives a commit, and remembers it. -/
def operateShow (session : Session) (operation : StateM Stage (Except GitError Commit)) :
    Answer × Session :=
  match session.operate operation with
  | (.ok commit, session) => (.commit (.ok commit), { session with last := some commit })
  | (.error error, session) => (.commit (.error error), session)

def told {α : Type} (tell : Except GitError α → Answer)
    (outcome : Except GitError α × Session) : Answer × Session :=
  (tell outcome.1, outcome.2)

def step (manager : Manager) (session : Session) : Step → Answer × Session
  | .backend => (.backend manager.backend, session)
  | .open path => told .checkout (session.operate (Manager.openExisting path))
  | .init root url bare =>
    told .done (session.operate (manager.init session.caller root url bare))
  | .log root request =>
    told .commits (session.operate (manager.log session.caller root request))
  | .show root reference =>
    session.operateShow (manager.commitByReference session.caller root reference)
  | .showHash root hash => session.operateShow (manager.commitForHash session.caller root hash)
  | .showTag root tag => session.operateShow (manager.commitForTag session.caller root tag)
  | .diff root revision other =>
    told .stats (session.operate (manager.diffStats session.caller root revision other))
  | .statsOfLast =>
    match session.last with
    | some commit =>
      told .stats (session.operate (manager.statsForCommit session.caller commit))
    | none => (.nothing, session)
  | .cancel =>
    (.nothing, { session with caller := { session.caller with cancelled := true } })
  | .context credentials => (.nothing, { session with caller := ⟨false, credentials⟩ })

/-- The answers of steps done one after the other, each with the calls made in it. -/
def run (manager : Manager) (session : Session) : List Step → List (Answer × List Call)
  | [] => []
  | step :: rest =>
    let (answer, after) := session.step manager step
    (answer, after.stage.calls.drop session.stage.calls.length) :: run manager after rest

end Session

end GitHistory
