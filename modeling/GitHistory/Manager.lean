import GitHistory.Backend
import GitHistory.Checkout
import GitHistory.Executable.Operations
import GitHistory.InProcess.Operations

/-!
One interface for both backends. A manager's operations change a stage: the world they take
place in, and, where commands are only rehearsed, the replies prepared for them.
-/
namespace GitHistory

/-- A reply prepared for a command. -/
inductive Reply where
  | output (output : CommandOutput)
  /-- Cancels the caller's context. -/
  | cancel
  | refusal (source : String)
  deriving Repr, DecidableEq

/-- A command that was asked for, and under whose name. -/
structure Call where
  invocation : Invocation
  username : Option String
  deriving Repr, DecidableEq

/-- Where operations take place: a world, the replies left, the calls so far, and how often a
reply cancelled the caller's context. -/
structure Stage where
  world : World
  replies : List Reply := []
  calls : List Call := []
  cancellations : Nat := 0

/-- What operations a backend offers; each can fail, and each may change the stage. -/
structure Manager where
  backend : Backend
  /-- Makes a repository in a directory and registers a remote one as `origin`. -/
  init : Caller → String → String → Bool → StateM Stage (Except GitError Unit)
  commitsForRange : Caller → Checkout → Request → StateM Stage (Except GitError (List Commit))
  commitByReference : Caller → RawPath → String → StateM Stage (Except GitError Commit)
  diffStats :
    Caller → RawPath → String → Option String → StateM Stage (Except GitError FileStats)

namespace Stage

def makeDirectories (path : String) : StateM Stage (Except IoError Unit) := fun stage =>
  let (made, world) := stage.world.makeDirectories path
  (made, { stage with world := world })

/-- Runs commands for real. -/
def machineHost (runner : Runner) (caller : Caller) : Executable.Plan.Host Stage where
  run := fun invocation stage => (runner.run stage.world.toMachine caller invocation, stage)
  makeDirectories := makeDirectories

/-- What a prepared reply stands for; without one a command succeeds and prints nothing. -/
def reply (invocation : Invocation) : Option Reply → Except GitError CommandOutput
  | none => .ok (.ok "")
  | some (.output output) => .ok output
  | some .cancel => .error .cancelled
  | some (.refusal source) => .error (.spawn invocation.program (.other source))

/-- Records a command and takes the next reply, unless the context is cancelled. -/
def rehearse (caller : Caller) (invocation : Invocation) :
    StateM Stage (Except GitError CommandOutput) := fun stage =>
  if caller.cancelled then (.error .cancelled, stage)
  else
    let next := stage.replies.head?
    (reply invocation next, { stage with
      replies := stage.replies.tail
      calls := stage.calls ++ [⟨invocation, caller.credentials.map (·.username)⟩]
      cancellations := stage.cancellations + if next = some .cancel then 1 else 0 })

/-- Rehearses commands. -/
def rehearsalHost (caller : Caller) : Executable.Plan.Host Stage where
  run := rehearse caller
  makeDirectories := makeDirectories

end Stage

namespace Manager

/-- The backend that runs an executable, which is given the paths as they are written down. -/
def executable (program : String) (host : Caller → Executable.Plan.Host Stage) : Manager where
  backend := .executable
  init := fun caller root url bare =>
    (Executable.init program root url bare).execute (host caller)
  commitsForRange := fun caller checkout request =>
    (Executable.commitsForRange program checkout.root request).execute (host caller)
  commitByReference := fun caller root reference =>
    (Executable.commitByReference program root.shown reference).execute (host caller)
  diffStats := fun caller root revision other =>
    (Executable.diffStats program root.shown revision other).execute (host caller)

/-- The backend that works in-process. -/
def inProcess : Manager where
  backend := .library
  init := fun caller root url bare stage =>
    let (made, world) := InProcess.init stage.world caller root url bare
    (made, { stage with world := world })
  commitsForRange := fun caller checkout request stage =>
    (InProcess.commitsForRange stage.world caller checkout.root request, stage)
  commitByReference := fun caller root reference stage =>
    (InProcess.commitByReference stage.world caller root reference, stage)
  diffStats := fun caller root revision other stage =>
    (InProcess.diffStats stage.world caller root revision other, stage)

/-- What a backend is made with. -/
structure Options where
  gitBinary : String := "git"
  askpass : Option String := none
  deriving Repr, DecidableEq

/-- The manager of a backend; its commands end at the deadline, if there is one. -/
def ofBackend (backend : Backend) (options : Options) (deadline : Option Nat) : Manager :=
  match backend with
  | .executable =>
    executable options.gitBinary (Stage.machineHost ⟨options.askpass, deadline⟩)
  | .library => inProcess

/-- The commit of a hash. -/
def commitForHash (manager : Manager) (caller : Caller) (root : RawPath) (hash : String) :
    StateM Stage (Except GitError Commit) :=
  manager.commitByReference caller root hash

/-- The commit of a tag. -/
def commitForTag (manager : Manager) (caller : Caller) (root : RawPath) (tag : String) :
    StateM Stage (Except GitError Commit) :=
  manager.commitByReference caller root tag

/-- What a commit changed against its first parent, where its checkout is written down to be. -/
def statsForCommit (manager : Manager) (caller : Caller) (commit : Commit) :
    StateM Stage (Except GitError FileStats) :=
  manager.diffStats caller commit.checkoutPath commit.hash none

/-- Opens a checkout. -/
def openExisting (path : String) : StateM Stage (Except GitError Checkout) := fun stage =>
  (openCheckout stage.world.tree stage.world.current path, stage)

/-- Opens a checkout and reads the commits of a range in it. -/
def log (manager : Manager) (caller : Caller) (path : String) (request : Request) :
    StateM Stage (Except GitError (List Commit)) := do
  match ← openExisting path with
  | .error error => pure (.error error)
  | .ok checkout => manager.commitsForRange caller checkout request

section
variable {manager : Manager} {caller : Caller} {path : String} {request : Request} {stage : Stage}

theorem log_of_opened {checkout : Checkout}
    (opened : openCheckout stage.world.tree stage.world.current path = .ok checkout) :
    manager.log caller path request stage =
      manager.commitsForRange caller checkout request stage := by
  have opens : openExisting path stage = (.ok checkout, stage) := congrArg (·, stage) opened
  simp only [log, bind, StateT.bind, opens]

theorem log_of_closed {error : GitError}
    (closed : openCheckout stage.world.tree stage.world.current path = .error error) :
    manager.log caller path request stage = (.error error, stage) := by
  have opens : openExisting path stage = (.error error, stage) := congrArg (·, stage) closed
  simp only [log, bind, StateT.bind, opens]
  rfl

end

end Manager

end GitHistory
