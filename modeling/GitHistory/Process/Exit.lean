import GitHistory.Text.Utf8

/-!
How a process ends and what it leaves behind.
-/
namespace GitHistory

inductive ExitStatus where
  | exited (code : Nat)
  | killed (signal : Nat)
  deriving Repr, DecidableEq

namespace ExitStatus

/-- The exit code; a process killed by a signal has none. -/
def code? : ExitStatus → Option Int
  | .exited code => some code
  | .killed _ => none

def isSuccess (status : ExitStatus) : Bool := status == .exited 0

end ExitStatus

/-- What a process wrote, how it ended, and after how many milliseconds. -/
structure ChildExit where
  stdout : List UInt8
  stderr : List UInt8
  status : ExitStatus
  milliseconds : Nat
  deriving Repr, DecidableEq

namespace ChildExit

/-- A process that writes a text and succeeds at once. -/
def writing (stdout : List UInt8) : ChildExit := ⟨stdout, [], .exited 0, 0⟩

/-- A process that complains and fails at once. -/
def failing (code : Nat) (complaint : String) : ChildExit :=
  ⟨[], Text.utf8 complaint.toList, .exited code, 0⟩

end ChildExit

end GitHistory
