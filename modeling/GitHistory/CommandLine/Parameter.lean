import GitHistory.Backend
import GitHistory.Text.Numeral

/-!
What can be given on the command line: flags, options with a value, and operands known by their
position. Options for every operation are understood before and after the operation's name, and
some of them can come from the environment instead.
-/
namespace GitHistory.CommandLine

/-- Why a command line is not carried out. -/
inductive Usage where
  | displayHelp
  | displayVersion
  | unknownArgument
  | invalidSubcommand
  | invalidValue
  | valueValidation
  | argumentConflict
  | tooManyValues
  | missingRequiredArgument
  deriving Repr, DecidableEq

/-- Whether only information was asked for. -/
def Usage.isInformation : Usage → Bool
  | .displayHelp => true
  | .displayVersion => true
  | _ => false

inductive Operation where
  | init
  | log
  | show
  | stats
  deriving Repr, DecidableEq

def Operation.name : Operation → String
  | .init => "init"
  | .log => "log"
  | .show => "show"
  | .stats => "stats"

/-- The operation of a name. -/
def Operation.ofName? (name : String) : Option Operation :=
  [Operation.init, .log, .show, .stats].find? (·.name == name)

inductive Parameter where
  | repo
  | backend
  | gitBinary
  | askpass
  | username
  | password
  | timeout
  | verbose
  | quiet
  | directory
  | remoteUrl
  | bare
  | branch
  | oldest
  | newest
  | count
  | reference
  | against
  deriving Repr, DecidableEq

namespace Parameter

/-- The long name; operands have none. -/
def long? : Parameter → Option String
  | .repo => some "repo"
  | .backend => some "backend"
  | .gitBinary => some "git-binary"
  | .askpass => some "askpass"
  | .username => some "username"
  | .password => some "password"
  | .timeout => some "timeout-secs"
  | .verbose => some "verbose"
  | .quiet => some "quiet"
  | .bare => some "bare"
  | .branch => some "branch"
  | .oldest => some "from"
  | .newest => some "to"
  | .count => some "count"
  | .against => some "against"
  | .directory => none
  | .remoteUrl => none
  | .reference => none

def short? : Parameter → Option Char
  | .repo => some 'r'
  | .verbose => some 'v'
  | .quiet => some 'q'
  | .branch => some 'b'
  | .count => some 'n'
  | _ => none

/-- The environment variable that stands in for an option. -/
def environmentName? : Parameter → Option String
  | .repo => some "GITSIFT_REPO"
  | .backend => some "GITSIFT_BACKEND"
  | .gitBinary => some "GITSIFT_GIT"
  | .askpass => some "GITSIFT_ASKPASS"
  | .username => some "GITSIFT_USERNAME"
  | .password => some "GITSIFT_PASSWORD"
  | .timeout => some "GITSIFT_TIMEOUT"
  | _ => none

/-- Kinds of parameters by what they take; a flag takes no value. -/
inductive Kind where
  | flag
  | word
  | path
  | number
  | backend
  deriving Repr, DecidableEq

def kind : Parameter → Kind
  | .verbose => .flag
  | .quiet => .flag
  | .bare => .flag
  | .repo => .path
  | .askpass => .path
  | .directory => .path
  | .timeout => .number
  | .count => .number
  | .backend => .backend
  | _ => .word

/-- What the values of a kind are. -/
abbrev Kind.Value : Kind → Type
  | .flag => Unit
  | .word => String
  | .path => String
  | .number => UInt64
  | .backend => Backend

/-- Reads a value. A path must not be empty; a word is any text. -/
def Kind.read : (kind : Kind) → String → Except Usage kind.Value
  | .flag, _ => .ok ()
  | .word, text => .ok text
  | .path, text => if text.isEmpty then .error .invalidValue else .ok text
  | .number, text =>
    match Text.readCount? text.toList with
    | some value => .ok value
    | none => .error .valueValidation
  | .backend, text =>
    match Backend.parse text with
    | .ok value => .ok value
    | .error _ => .error .valueValidation

abbrev Value (parameter : Parameter) : Type := parameter.kind.Value

def read (parameter : Parameter) (text : String) : Except Usage parameter.Value :=
  parameter.kind.read text

/-- Options understood everywhere. -/
def shared : List Parameter :=
  [.repo, .backend, .gitBinary, .askpass, .username, .password, .timeout, .verbose, .quiet]

end Parameter

/-- Options of an operation alone. -/
def Operation.options : Operation → List Parameter
  | .init => [.bare]
  | .log => [.branch, .oldest, .newest, .count]
  | .show => []
  | .stats => [.against]

/-- Operands of an operation, in order. -/
def Operation.operands : Operation → List Parameter
  | .init => [.directory, .remoteUrl]
  | .log => []
  | .show => [.reference]
  | .stats => [.reference]

/-- Where an argument stands: before the name of an operation, or after it. -/
inductive Level where
  | top
  | within (operation : Operation)
  deriving Repr, DecidableEq

namespace Level

def options : Level → List Parameter
  | .top => Parameter.shared
  | .within operation => operation.options ++ Parameter.shared

def operands : Level → List Parameter
  | .top => []
  | .within operation => operation.operands

end Level

/-- What a name that starts with a dash asks for. -/
inductive Meaning where
  | flag (parameter : Parameter)
  | option (parameter : Parameter)
  | inform (usage : Usage)
  deriving Repr, DecidableEq

def Meaning.of (parameter : Parameter) : Meaning :=
  if parameter.kind = .flag then .flag parameter else .option parameter

namespace Level

/-- The option of a long name. -/
def ofLong? (level : Level) (name : String) : Option Meaning :=
  if name = "help" then some (.inform .displayHelp)
  else if name = "version" ∧ level = .top then some (.inform .displayVersion)
  else (level.options.find? (·.long? == some name)).map .of

/-- The option of a letter. -/
def ofShort? (level : Level) (letter : Char) : Option Meaning :=
  if letter = 'h' then some (.inform .displayHelp)
  else if letter = 'V' ∧ level = .top then some (.inform .displayVersion)
  else (level.options.find? (·.short? == some letter)).map .of

end Level

end GitHistory.CommandLine
