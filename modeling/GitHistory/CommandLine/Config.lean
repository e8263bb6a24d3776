import GitHistory.CommandLine.Reading
import GitHistory.Manager

/-!
The configuration that a command line stands for. A value behind the operation's name wins over
one in front of it, that one over the environment, and the environment over the default.
-/
namespace GitHistory

namespace CommandLine

/-- An operation with all it needs. -/
inductive Command where
  | init (directory remoteUrl : String) (bare : Bool)
  | log (branch : String) (oldest newest : Option String) (count : UInt64)
  | show (reference : String)
  | stats (reference : String) (against : Option String)
  deriving Repr, DecidableEq

/-- The branch whose history is read where none is named. -/
def Command.defaultBranch : String := "HEAD"

/-- How many commits are read where no number is given. -/
def Command.defaultCount : UInt64 := 20

private def required {α : Type} : Option α → Except Usage α
  | some value => .ok value
  | none => .error .missingRequiredArgument

/-- The command of an operation; its operands have to be there. -/
def Operation.command (given : Given) : Operation → Except Usage Command
  | .init => do
    let directory ← required (given .directory)
    let remoteUrl ← required (given .remoteUrl)
    pure (.init directory remoteUrl (given.has .bare))
  | .log =>
    pure (.log ((given .branch).getD Command.defaultBranch) (given .oldest) (given .newest)
      ((given .count).getD Command.defaultCount))
  | .show => do
    let reference ← required (given .reference)
    pure (.show reference)
  | .stats => do
    let reference ← required (given .reference)
    pure (.stats reference (given .against))

end CommandLine

open CommandLine

structure Config where
  command : Option Command := none
  repo : Option String := none
  backend : Backend := .default
  gitBinary : Option String := none
  askpass : Option String := none
  username : Option String := none
  password : Option String := none
  /-- Seconds after which work is given up. -/
  timeout : Option UInt64 := none
  verbose : Bool := false
  quiet : Bool := false
  deriving Repr, DecidableEq

namespace Config

private def ofGiven (command : Option Command) (given : Given) : Config where
  command := command
  repo := given .repo
  backend := (given .backend).getD .default
  gitBinary := given .gitBinary
  askpass := given .askpass
  username := given .username
  password := given .password
  timeout := given .timeout
  verbose := given.has .verbose
  quiet := given.has .quiet

/-- What the help on some operation says comes down to whether there is such an operation. -/
def helpOn : List String → Usage
  | [] => .displayHelp
  | [name] => if Reading.isOperationName name then .displayHelp else .invalidSubcommand
  | _ => .invalidSubcommand

/-- Reads a command line without the program's own name. The level behind the operation's name
is finished before the one in front of it. -/
def parse (environment : Environment) (arguments : List String) : Except Usage Config := do
  let (top, rest) ← (Reading.start .top).takeAll arguments
  match rest with
  | [] =>
    let given ← top.finish environment
    pure (ofGiven none (given.orElse environment.given))
  | name :: rest =>
    match Operation.ofName? name with
    | none => throw (helpOn rest)
    | some operation =>
      let (inner, _) ← (Reading.start (.within operation)).takeAll rest
      let within ← inner.finish environment
      let command ← operation.command within
      let given ← top.finish environment
      pure (ofGiven (some command) ((within.orElse given).orElse environment.given))

/-- The path of the checkout: the current directory, if no other is named. -/
def repoPath (config : Config) (current : Route) : String :=
  config.repo.getD current.text

/-- Credentials exist as soon as there is a name. -/
def credentials (config : Config) : Option Credentials :=
  config.username.map fun username => ⟨username, config.password.getD ""⟩

/-- The program that hands out credentials, if no other is named. -/
def defaultAskpass : String := "/git-ask-pass.sh"

/-- What the backend is made with. -/
def options (config : Config) : Manager.Options where
  gitBinary := config.gitBinary.getD "git"
  askpass := config.askpass.or (config.username.map fun _ => defaultAskpass)

/-- The milliseconds after which work is given up. -/
def deadline (config : Config) : Option Nat :=
  config.timeout.map fun seconds => seconds.toNat * 1000

/-- How every operation is called. -/
def caller (config : Config) : Caller := ⟨false, config.credentials⟩

inductive LogLevel where
  | debug
  | info
  | warn
  deriving Repr, DecidableEq

def LogLevel.name : LogLevel → String
  | .debug => "DEBUG"
  | .info => "INFO"
  | .warn => "WARN"

def logLevel (config : Config) : LogLevel :=
  if config.verbose then .debug else if config.quiet then .warn else .info

/-- What is wrong with a configuration. -/
inductive Fault where
  | repoNotFound (path : String)
  | repoNotADirectory (path : String)
  | zeroCount
  | conflictingVerbosity
  deriving Repr, DecidableEq

def Fault.message : Fault → String
  | .repoNotFound path => s!"Repository path not found: {path}"
  | .repoNotADirectory path => s!"Repository path is not a directory: {path}"
  | .zeroCount => "Commit count must be at least 1"
  | .conflictingVerbosity => "--verbose and --quiet cannot be used together"

/-- Checks that the path of the checkout is one of a directory. -/
def validateRepo (config : Config) (machine : Machine) : Except Fault Unit :=
  let path := config.repoPath machine.current
  if !machine.tree.holds machine.current path then .error (.repoNotFound path)
  else if !machine.tree.isDirectory machine.current path then .error (.repoNotADirectory path)
  else .ok ()

/-- Checks a configuration before anything is done. Only what reads a checkout needs one. -/
def validate (config : Config) (machine : Machine) : Except Fault Unit :=
  if config.verbose && config.quiet then .error .conflictingVerbosity
  else
    match config.command with
    | none => .ok ()
    | some (.init ..) => .ok ()
    | some (.log _ _ _ count) =>
      if count = 0 then .error .zeroCount else config.validateRepo machine
    | some _ => config.validateRepo machine

end Config

end GitHistory
