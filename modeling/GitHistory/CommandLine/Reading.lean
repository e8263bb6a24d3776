import GitHistory.CommandLine.Given
import GitHistory.Text.Split

/-!
Reading arguments one by one. An option without a value attached waits for the next argument,
and what it got is accepted only when the next option or operand comes or the arguments are over;
so a faulty value is reported later than an unknown option right behind it.
-/
namespace GitHistory.CommandLine

/-- What an argument looks like. -/
inductive Shape where
  /-- Everything after it is an operand. -/
  | separator
  | long (name : String) (attached : Option String)
  | short (letters : List Char)
  | plain
  deriving Repr, DecidableEq

/-- The shape of an argument; a single dash is nothing special. -/
def Shape.of (argument : String) : Shape :=
  match argument.toList with
  | ['-', '-'] => .separator
  | '-' :: '-' :: rest =>
    match Text.cut? '=' rest with
    | some (name, value) => .long (String.ofList name) (some (String.ofList value))
    | none => .long (String.ofList rest) none
  | '-' :: letter :: rest => .short (letter :: rest)
  | _ => .plain

/-- A parameter that was named or reached, and the text for it if that is known yet. -/
structure Pending where
  parameter : Parameter
  text : Option String
  deriving Repr, DecidableEq

/-- The state between two arguments of a level. -/
structure Reading where
  level : Level
  /-- Operands still to come. -/
  operands : List Parameter
  given : Given := .nothing
  pending : Option Pending := none
  operandsOnly : Bool := false

namespace Reading

def start (level : Level) : Reading := { level := level, operands := level.operands }

/-- Takes a value; nothing can be given twice. -/
def accept (reading : Reading) (parameter : Parameter) (text : String) : Except Usage Reading :=
  match reading.given parameter with
  | some _ => .error .argumentConflict
  | none =>
    match parameter.read text with
    | .ok value => .ok { reading with given := reading.given.set parameter value }
    | .error usage => .error usage

/-- Takes what is pending. -/
def settle (reading : Reading) : Except Usage Reading :=
  match reading.pending with
  | none => .ok reading
  | some ⟨_, none⟩ => .error .invalidValue
  | some ⟨parameter, some text⟩ => { reading with pending := none }.accept parameter text

/-- The option that the next argument belongs to. -/
def awaiting? (reading : Reading) : Option Parameter :=
  match reading.pending with
  | some ⟨parameter, none⟩ => some parameter
  | _ => none

/-- An option with its value, or one that waits for it. -/
def takeOption (reading : Reading) (parameter : Parameter) (attached : Option String) :
    Except Usage Reading := do
  let reading ← reading.settle
  match attached with
  | some text => reading.accept parameter text
  | none => pure { reading with pending := some ⟨parameter, none⟩ }

def takeFlag (reading : Reading) (parameter : Parameter) : Except Usage Reading := do
  let reading ← reading.settle
  reading.accept parameter ""

/-- Ends with information, if everything before was in order. -/
def inform (reading : Reading) (usage : Usage) : Except Usage Reading := do
  let _ ← reading.settle
  throw usage

def takeLong (reading : Reading) (name : String) (attached : Option String) :
    Except Usage Reading :=
  match reading.level.ofLong? name, attached with
  | none, _ => .error .unknownArgument
  | some (.option parameter), attached => reading.takeOption parameter attached
  | some _, some _ => .error .tooManyValues
  | some (.flag parameter), none => reading.takeFlag parameter
  | some (.inform usage), none => reading.inform usage

/-- The value attached to a letter: the rest of the argument, without an equals sign in front. -/
def attachedTo : List Char → Option String
  | [] => none
  | '=' :: rest => some (String.ofList rest)
  | rest => some (String.ofList rest)

/-- Letters behind one dash: flags, and at the end maybe an option with its value. -/
def takeShort (reading : Reading) : List Char → Except Usage Reading
  | [] => .ok reading
  | letter :: rest =>
    match reading.level.ofShort? letter with
    | none => .error .unknownArgument
    | some (.option parameter) => reading.takeOption parameter (attachedTo rest)
    | some (.inform usage) => reading.inform usage
    | some (.flag parameter) =>
      match reading.takeFlag parameter with
      | .ok reading => reading.takeShort rest
      | .error usage => .error usage

/-- Whether an argument names an operation, or the help on them. -/
def isOperationName (argument : String) : Bool :=
  argument == "help" || (Operation.ofName? argument).isSome

/-- An argument too many. -/
def surplus (reading : Reading) (argument : String) : Usage :=
  match reading.level with
  | .within _ => .unknownArgument
  | .top =>
    if reading.operandsOnly && isOperationName argument then .unknownArgument
    else .invalidSubcommand

def takeOperand (reading : Reading) (argument : String) : Except Usage Reading :=
  match reading.operands with
  | [] => .error (reading.surplus argument)
  | parameter :: operands =>
    match reading.settle with
    | .ok reading =>
      .ok { reading with operands := operands, pending := some ⟨parameter, some argument⟩ }
    | .error usage => .error usage

/-- A value for the option that waits for one, or else an operand. -/
def takePlain (reading : Reading) (argument : String) : Except Usage Reading :=
  match reading.awaiting? with
  | some parameter => .ok { reading with pending := some ⟨parameter, some argument⟩ }
  | none => reading.takeOperand argument

/-- Takes one argument. -/
def take (reading : Reading) (argument : String) : Except Usage Reading :=
  if reading.operandsOnly then reading.takeOperand argument
  else
    match Shape.of argument with
    | .separator => .ok { reading with operandsOnly := true }
    | .long name attached => reading.takeLong name attached
    | .short letters => reading.takeShort letters
    | .plain => reading.takePlain argument

/-- Whether a level ends at an argument, which then names an operation. -/
def endsAt (reading : Reading) (argument : String) : Bool :=
  reading.level == .top && !reading.operandsOnly && reading.awaiting?.isNone &&
    isOperationName argument

/-- Takes the arguments of a level, and leaves those from the name of an operation on. -/
def takeAll (reading : Reading) : List String → Except Usage (Reading × List String)
  | [] => .ok (reading, [])
  | argument :: rest =>
    if reading.endsAt argument then .ok (reading, argument :: rest)
    else
      match reading.take argument with
      | .ok reading => reading.takeAll rest
      | .error usage => .error usage

/-- What a level gives in the end; the environment has to be readable by then. -/
def finish (reading : Reading) (environment : Environment) : Except Usage Given := do
  let reading ← reading.settle
  environment.check reading.given reading.level.options
  pure reading.given

end Reading

end GitHistory.CommandLine
