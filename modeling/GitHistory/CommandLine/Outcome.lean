import GitHistory.CommandLine.Output

/-!
How a run of the program ends: what it prints, its exit code, and the report of an error.
-/
namespace GitHistory

namespace CommandLine

/-- A headline and what led to it, nearest cause first. -/
structure Report where
  headline : String
  causes : List String
  deriving Repr, DecidableEq

namespace Report

/-- Lines behind the first one are moved to the right as far as it is. -/
private def indented (lead : String) (text : String) : String :=
  let margin := String.ofList (List.replicate lead.length ' ')
  lead ++ ("\n" ++ margin).intercalate ((Text.splitOn '\n' text.toList).map String.ofList)

/-- The number of a cause, right-aligned, with a colon. -/
private def numbered (index : Nat) : String :=
  let digits := toString index
  String.ofList (List.replicate (5 - digits.length) ' ') ++ digits ++ ": "

/-- Causes, one below the other; they get numbers if there are several. -/
private def causesText : List String → List String
  | [cause] => [indented "    " cause]
  | causes => causes.zipIdx.map fun (cause, index) => indented (numbered index) cause

def text (report : Report) : String :=
  match report.causes with
  | [] => report.headline ++ "\n"
  | causes => report.headline ++ "\n\nCaused by:\n" ++ "\n".intercalate (causesText causes) ++ "\n"

def ofFault (fault : Config.Fault) : Report := ⟨"Invalid configuration", [fault.message]⟩

def ofError (error : GitError) : Report :=
  ⟨"Command failed", error.message :: error.source?.toList⟩

end Report

inductive Outcome where
  | printed (value : Json.Value)
  /-- Help or the version is shown instead of a result. -/
  | information (usage : Usage)
  | misuse (usage : Usage)
  | failed (report : Report)
  | crashed (overflow : Overflow)

namespace Outcome

def ofUsage (usage : Usage) : Outcome :=
  if usage.isInformation then .information usage else .misuse usage

def ofResult : Except Failure Json.Value → Outcome
  | .ok value => .printed value
  | .error (.git error) => .failed (.ofError error)
  | .error (.crash overflow) => .crashed overflow

def code : Outcome → Nat
  | .printed _ => 0
  | .information _ => 0
  | .failed _ => 1
  | .misuse _ => 2
  | .crashed _ => 101

/-- The value on standard output, laid out. -/
def stdout? : Outcome → Option String
  | .printed value => some (value.renderLaidOut ++ "\n")
  | _ => none

/-- The report on standard error. -/
def report? : Outcome → Option String
  | .failed report => some report.text
  | _ => none

end Outcome

end CommandLine

open CommandLine

namespace Config

/-- Does what a configuration asks for; without a command nothing is printed. The deadline is the
number of milliseconds after which work is given up. -/
def perform (config : Config) (deadline : Option Nat) (world : World) :
    Option (Except Failure Json.Value) × World :=
  match config.command with
  | none => (none, world)
  | some command =>
    let manager := Manager.ofBackend config.backend config.options deadline
    let repo := config.repoPath world.current
    let (result, stage) := command.run manager config.caller repo { world := world }
    (some result, stage.world)

/-- Checks a configuration, and does what it asks for. -/
def run (config : Config) (world : World) : Outcome × World :=
  match config.validate world.toMachine with
  | .error fault => (.failed (.ofFault fault), world)
  | .ok () =>
    match config.perform config.deadline world with
    | (none, world) => (.information .displayHelp, world)
    | (some result, world) => (.ofResult result, world)

end Config

/-- Runs the program in a world with the arguments after its own name. -/
def runProgram (arguments : List String) (world : World) : CommandLine.Outcome × World :=
  match Config.parse world.environment arguments with
  | .error usage => (.ofUsage usage, world)
  | .ok config => config.run world

end GitHistory
