import GitHistory.Process.Command

/-!
What an operation does with the git executable, before anything is done: a tree of directories
to make and commands to run, which branches over the replies. Which commands an operation may
ever run can be read off the tree, whoever replies.
-/
namespace GitHistory.Executable

inductive Plan (α : Type) where
  | done (result : Except GitError α)
  | run (invocation : Invocation) (next : Except GitError CommandOutput → Plan α)
  | makeDirectories (path : String) (next : Except IoError Unit → Plan α)

namespace Plan

variable {α σ : Type}

/-- Who runs commands and makes directories, with a state of its own. -/
structure Host (σ : Type) where
  run : Invocation → StateM σ (Except GitError CommandOutput)
  makeDirectories : String → StateM σ (Except IoError Unit)

/-- Carries a plan out. -/
def execute (host : Host σ) : Plan α → StateM σ (Except GitError α)
  | .done result => pure result
  | .run invocation next => do execute host (next (← host.run invocation))
  | .makeDirectories path next => do execute host (next (← host.makeDirectories path))

/-- A command that some sequence of replies makes a plan run. -/
inductive Runs (invocation : Invocation) : Plan α → Prop where
  | here (next : Except GitError CommandOutput → Plan α) : Runs invocation (.run invocation next)
  | afterRun (other : Invocation) (next : Except GitError CommandOutput → Plan α)
      (reply : Except GitError CommandOutput) (later : Runs invocation (next reply)) :
      Runs invocation (.run other next)
  | afterDirectories (path : String) (next : Except IoError Unit → Plan α)
      (reply : Except IoError Unit) (later : Runs invocation (next reply)) :
      Runs invocation (.makeDirectories path next)

end Plan

/-- What git printed, or the error that its failure stands for. -/
def printed (invocation : Invocation) (reply : Except GitError CommandOutput) :
    Except GitError String := do
  let output ← reply
  if output.success then pure output.stdout
  else throw (classifyFailure invocation.text output)

end GitHistory.Executable
