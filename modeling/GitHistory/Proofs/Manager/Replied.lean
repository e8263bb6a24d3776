import GitHistory.Manager
import GitHistory.Proofs.Executable.Reply

/-! What the executable backend returns where git succeeds is what git's output is read as. -/
namespace GitHistory

open Executable (Plan logArguments showArguments diffArguments)

variable {host : Caller → Plan.Host Stage} {caller : Caller} {words : List String}
  {stage after : Stage} {reply : CommandOutput}

/-- The commits of a checkout that was opened are those that git's reply is read as. -/
theorem log_of_reply (program : String) {path : String} {request : Request} {checkout : Checkout}
    {commits : List Commit}
    (opened : openCheckout stage.world.tree stage.world.current path = .ok checkout)
    (passed : logArguments checkout.root request = .ok words)
    (replied : (host caller).run ⟨program, words⟩ stage = (.ok reply, after))
    (succeeded : reply.success = true)
    (accepted : decodeLog reply.stdout checkout.root = .ok commits) :
    (Manager.executable program host).log caller path request stage = (.ok commits, after) := by
  have decided : Executable.DecidedByReply (host caller)
      (Executable.commitsForRange program checkout.root request) ⟨program, words⟩ id
      fun output => decodeLog output checkout.root :=
    Executable.decidedByReply_query (host caller) program passed (fun _ => rfl) fun _ => rfl
  rw [Manager.log_of_opened opened]
  exact (decided.succeeded stage reply after replied succeeded).trans
    (congrArg (·, after) accepted)

/-- The commit of a reference is the first one that git's reply is read as. -/
theorem commitByReference_of_reply (program repo : String) {reference : String} {commit : Commit}
    {more : List Commit} (passed : showArguments repo reference = .ok words)
    (replied : (host caller).run ⟨program, words⟩ stage = (.ok reply, after))
    (succeeded : reply.success = true)
    (accepted : decodeLog reply.stdout repo = .ok (commit :: more)) :
    (Manager.executable program host).commitByReference caller repo reference stage =
      (.ok commit, after) := by
  have decided := Executable.decidedByReply_lookup (host caller) program repo passed
  have first : Executable.firstCommit repo reference reply.stdout = .ok commit := by
    rw [Executable.firstCommit, accepted]
    rfl
  simp only [Manager.executable, RawPath.shown_ofText]
  exact (decided.succeeded stage reply after replied succeeded).trans (congrArg (·, after) first)

/-- The statistics are those that git's reply is read as. -/
theorem diffStats_of_reply (program repo : String) {revision : String} {other : Option String}
    {stats : FileStats} (passed : diffArguments repo revision other = .ok words)
    (replied : (host caller).run ⟨program, words⟩ stage = (.ok reply, after))
    (succeeded : reply.success = true) (accepted : Numstat.parseFields reply.stdout = .ok stats) :
    (Manager.executable program host).diffStats caller repo revision other stage =
      (.ok stats, after) := by
  have decided : Executable.DecidedByReply (host caller)
      (Executable.diffStats program repo revision other) ⟨program, words⟩ id Numstat.parseFields :=
    Executable.decidedByReply_query (host caller) program passed (fun _ => rfl) fun _ => rfl
  simp only [Manager.executable, RawPath.shown_ofText]
  exact (decided.succeeded stage reply after replied succeeded).trans
    (congrArg (·, after) accepted)

/-- A text that was prepared is what the next command prints. -/
theorem run_rehearsal {text : String}
    (prepared : stage.replies.head? = some (.output (.ok text))) (invocation : Invocation) :
    ∃ after, (Stage.rehearsalHost {}).run invocation stage = (.ok (.ok text), after) := by
  have replied : Stage.reply invocation stage.replies.head? = .ok (.ok text) := by
    rw [prepared]
    rfl
  exact ⟨_, congrArg (·, _) replied⟩

end GitHistory
