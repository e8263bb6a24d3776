import GitHistory.Process.Exit
import GitHistory.Shell.Files
import GitHistory.Shell.Format
import GitHistory.Shell.Reader

/-!
Running a script. Commands write, set variables, and may end the script before its last
command; whether a command succeeded is all that later ones see of it.
-/
namespace GitHistory.Shell

/-- What happens behind a loop's body that was left early. -/
inductive Skip where
  | toNextTurn
  | toEnd
  deriving Repr, DecidableEq

/-- What a script runs with and how far it got. -/
structure State where
  /-- The name that the script goes by in its own messages. -/
  name : String
  arguments : List String
  bindings : List (String × String)
  directory : String
  look : Look
  input : List UInt8 := []
  stdout : List UInt8 := []
  stderr : List UInt8 := []
  code : Nat := 0
  milliseconds : Nat := 0
  ending : Option ExitStatus := none
  /-- The commands up to the end of the loop's body are passed over. -/
  skips : Option Skip := none

namespace State

def setting? (state : State) (name : String) : Option String :=
  state.bindings.lookup name

def set (state : State) (name value : String) : State :=
  { state with bindings := (name, value) :: state.bindings }

def unset (state : State) (name : String) : State :=
  { state with bindings := state.bindings.filter (·.1 != name) }

/-- The value of a parameter, if it is set. -/
def parameter? (state : State) (name : String) : Option String :=
  match name with
  | "@" => some (spaced state.arguments)
  | "*" => some (spaced state.arguments)
  | "#" => some (toString state.arguments.length)
  | "?" => some (toString state.code)
  | "$" => some "1"
  | "0" => some state.name
  | _ =>
    match Text.digits? name.toList with
    | some index => state.arguments[index - 1]?
    | none => state.setting? name

/-- The value of a parameter, or what stands for it. -/
def value (state : State) (name : String) (fallback : Option Fallback) : String :=
  let found := state.parameter? name
  match fallback with
  | none => found.getD ""
  | some fallback =>
    let found := found.filter fun value => !(fallback.emptyIsUnset && value.isEmpty)
    if fallback.forSet then if found.isSome then fallback.text else ""
    else found.getD fallback.text

/-- A word as one text. -/
def text (state : State) (word : Word) : String :=
  word.foldl
    (fun done piece =>
      match piece with
      | .text content _ => done ++ content
      | .parameter name fallback _ => done ++ state.value name fallback)
    ""

def isFieldBlank (c : Char) : Bool := c == ' ' || c == '\t' || c == '\n'

/-- Fields that are complete, and the one being built. -/
structure Fields where
  done : List String := []
  open? : Option String := none

def Fields.append (fields : Fields) (text : String) : Fields :=
  { fields with open? := some (fields.open?.getD "" ++ text) }

def Fields.close (fields : Fields) : Fields :=
  match fields.open? with
  | some field => ⟨fields.done ++ [field], none⟩
  | none => fields

def Fields.appendSplit (fields : Fields) (value : String) : Fields :=
  value.toList.foldl
    (fun fields c => if isFieldBlank c then fields.close else fields.append (String.ofList [c]))
    fields

def Fields.appendAll (fields : Fields) : List String → Fields
  | [] => fields
  | [text] => fields.append text
  | text :: rest => (fields.append text).close.appendAll rest

/-- The fields that a word gives: unquoted values are split at blanks, and all arguments in
quotes stay one field each. -/
def fields (state : State) (word : Word) : List String :=
  let add := fun (fields : Fields) (piece : Piece) =>
    match piece with
    | .text content _ => fields.append content
    | .parameter name fallback quoted =>
      if name = "@" ∧ quoted then fields.appendAll state.arguments
      else if quoted then fields.append (state.value name fallback)
      else fields.appendSplit (state.value name fallback)
  let onlyArguments := word == [.text "" true, .parameter "@" none true]
  if onlyArguments then state.arguments
  else (word.foldl add {}).close.done

def hasEnded (state : State) : Bool := state.ending.isSome

/-- Whether the next command is passed over. -/
def isPast (state : State) : Bool := state.hasEnded || state.skips.isSome

/-- Goes on behind a turn of a loop, which may have been left early. -/
def afterTurn (state : State) : State :=
  if state.skips = some .toNextTurn then { state with skips := none } else state

/-- Goes on behind a loop. -/
def afterLoop (state : State) : State := { state with skips := none }

def write (state : State) (bytes : List UInt8) : State :=
  { state with stdout := state.stdout ++ bytes, code := 0 }

def complain (state : State) (code : Nat) (message : String) : State :=
  { state with stderr := state.stderr ++ Text.utf8 message.toList, code := code }

def finish (state : State) (status : ExitStatus) : State :=
  { state with ending := some status }

end State

/-- Milliseconds of a number of seconds with or without a fraction. -/
def duration? (text : String) : Option Nat :=
  match Text.cut? '.' text.toList with
  | none => (Text.digits? text.toList).map (· * 1000)
  | some (whole, fraction) => do
    let whole ← if whole.isEmpty then some 0 else Text.digits? whole
    let thousandths ← Text.digits? ((fraction ++ ['0', '0', '0']).take 3)
    pure (whole * 1000 + thousandths)

/-- Signals that end a process, by name and number. -/
private def signals : List (String × Nat) := [
  ("HUP", 1), ("INT", 2), ("QUIT", 3), ("ILL", 4), ("TRAP", 5), ("ABRT", 6), ("BUS", 7),
  ("FPE", 8), ("KILL", 9), ("USR1", 10), ("SEGV", 11), ("USR2", 12), ("PIPE", 13), ("ALRM", 14),
  ("TERM", 15)]

/-- The number of a signal given as an option. -/
def signal? (option : String) : Option Nat :=
  (signals.find? fun (name, number) =>
    option == "-" ++ name || option == "-SIG" ++ name || option == "-" ++ toString number).map (·.2)

/-- Whether the arguments of `test` hold. -/
def testHolds (look : Look) : List String → Bool
  | [] => false
  | [text] => !text.isEmpty
  | ["!", text] => text.isEmpty
  | ["-n", text] => !text.isEmpty
  | ["-z", text] => text.isEmpty
  | [test, path] => (fileTest? look test path).getD false
  | [left, "=", right] => left == right
  | [left, "!=", right] => left != right
  | [left, "-eq", right] => numberText left == numberText right
  | [left, "-ne", right] => numberText left != numberText right
  | [left, "-lt", right] => numberText left < numberText right
  | [left, "-le", right] => numberText left ≤ numberText right
  | [left, "-gt", right] => numberText right < numberText left
  | [left, "-ge", right] => numberText right ≤ numberText left
  | "!" :: rest => !testHolds look rest
  | _ => false

/-- Gives each variable one field of a line, and the last one all that is left. -/
def State.setFields (state : State) : List String → List Char → State
  | [], _ => state
  | [name], text => state.set name (String.ofList (text.dropWhile State.isFieldBlank))
  | name :: names, text =>
    let (field, rest) := (text.dropWhile State.isFieldBlank).span (!State.isFieldBlank ·)
    (state.set name (String.ofList field)).setFields names rest

/-- Takes the next line of the input into some variables; a line without its end is taken too,
but the command fails. -/
def readLine (state : State) (names : List String) : State :=
  let (line, rest) := state.input.span (· != 10)
  let text := (Text.decodeUtf8Lossy line).toList.reverse.dropWhile State.isFieldBlank
  { state.setFields names text.reverse with
    input := rest.drop 1
    code := if rest.isEmpty then 1 else 0 }

/-- Runs a command by its name; `lead` stands before the name of one that does not exist. -/
def runNamed (line : Nat) (lead : String) (state : State) (name : String)
    (arguments : List String) : State :=
  match name, arguments with
  | ":", _ => { state with code := 0 }
  | "true", _ => { state with code := 0 }
  | "false", _ => { state with code := 1 }
  | "echo", words => state.write (echoed words)
  | "printf", "--" :: format :: arguments => state.write (formatted format arguments)
  | "printf", format :: arguments => state.write (formatted format arguments)
  | "pwd", _ => state.write (Text.utf8 state.directory.toList ++ [10])
  | "cat", [] => { state.write state.input with input := [] }
  | "cat", files =>
    let (bytes, complaints, code) := concatenated state.look state.input "cat" files
    (state.write bytes).complain code complaints
  | "read", "-r" :: names => readLine state names
  | "read", names => readLine state names
  | "sleep", [time] =>
    match duration? time with
    | some milliseconds =>
      { state with milliseconds := state.milliseconds + milliseconds, code := 0 }
    | none => state.complain 1 s!"sleep: invalid time interval '{time}'\n"
  | "exit", [] => state.finish (.exited state.code)
  | "exit", code :: _ =>
    match Text.digits? code.toList with
    | some code => state.finish (.exited (code % 256))
    | none =>
      let message := s!"{state.name}: {line}: exit: Illegal number: {code}\n"
      (state.complain 2 message).finish (.exited 2)
  | "shift", count =>
    let count := (Text.digits? (count.headD "1").toList).getD 1
    if count ≤ state.arguments.length then
      { state with arguments := state.arguments.drop count, code := 0 }
    else
      let message := s!"{state.name}: {line}: shift: can't shift that many\n"
      (state.complain 2 message).finish (.exited 2)
  | "export", _ => { state with code := 0 }
  | "set", "--" :: arguments => { state with arguments := arguments, code := 0 }
  | "set", _ => { state with code := 0 }
  | "break", _ => { state with skips := some .toEnd, code := 0 }
  | "continue", _ => { state with skips := some .toNextTurn, code := 0 }
  | "unset", names => { names.foldl State.unset state with code := 0 }
  | "test", arguments => { state with code := if testHolds state.look arguments then 0 else 1 }
  | "[", arguments =>
    { state with code := if testHolds state.look arguments.dropLast then 0 else 1 }
  | "kill", ["-0", "1"] => { state with code := 0 }
  | "kill", [option, "1"] =>
    match signal? option with
    | some signal => state.finish (.killed signal)
    | none => state.complain 2 s!"{state.name}: {line}: kill: Illegal option {option}\n"
  | "kill", ["-s", name, "1"] =>
    match signal? ("-" ++ name) with
    | some signal => state.finish (.killed signal)
    | none =>
      state.complain 2 s!"{state.name}: {line}: kill: invalid signal number or name: {name}\n"
  | "kill", ["1"] => state.finish (.killed 15)
  | "exec", [] => { state with code := 0 }
  | name, _ => state.complain 127 s!"{state.name}: {line}: {lead}{name}: not found\n"

/-- Runs a command and its arguments; `exec` ends the script with it. -/
def runFields (line : Nat) (state : State) : List String → State
  | [] => { state with code := 0 }
  | "exec" :: name :: arguments =>
    let state := runNamed line "exec: " state name arguments
    if state.hasEnded then state else state.finish (.exited state.code)
  | name :: arguments => runNamed line "" state name arguments

/-- The variable and the value of an assignment. -/
def assignment? (word : Word) : Option (String × Word) :=
  match word with
  | .text content false :: rest => do
    let (name, value) ← Text.cut? '=' content.toList
    let first ← name.head?
    if isNameStart first && name.all isNameChar then
      pure (String.ofList name, .text (String.ofList value) true :: rest)
    else none
  | _ => none

/-- Runs the words of a simple command, assignments first. -/
def runSimple (line : Nat) : List Word → State → State
  | [], state => { state with code := 0 }
  | word :: rest, state =>
    match assignment? word with
    | some (name, value) => runSimple line rest (state.set name (state.text value))
    | none => runFields line state ((word :: rest).flatMap state.fields)

/-- An item of a pattern: any text, any character, or one character. -/
inductive PatternItem where
  | anyText
  | anyChar
  | exact (c : Char)
  deriving Repr, DecidableEq

def PatternItem.ofChar : Char → PatternItem
  | '*' => .anyText
  | '?' => .anyChar
  | c => .exact c

/-- The pattern that a word stands for; what is quoted matches itself only. -/
def patternOf (state : State) (word : Word) : List PatternItem :=
  word.flatMap fun piece =>
    match piece with
    | .text content true => content.toList.map .exact
    | .text content false => content.toList.map PatternItem.ofChar
    | .parameter name fallback true => (state.value name fallback).toList.map .exact
    | .parameter name fallback false =>
      (state.value name fallback).toList.map PatternItem.ofChar

def matchesPattern : List PatternItem → List Char → Bool
  | [], text => text.isEmpty
  | .anyText :: pattern, [] => matchesPattern pattern []
  | .anyText :: pattern, c :: rest =>
    matchesPattern pattern (c :: rest) || matchesPattern (.anyText :: pattern) rest
  | .anyChar :: pattern, _ :: rest => matchesPattern pattern rest
  | .exact p :: pattern, c :: rest => p == c && matchesPattern pattern rest
  | _ :: _, [] => false
  termination_by pattern text => pattern.length + text.length

/-- Where the output of one descriptor goes. -/
inductive Target where
  | stdout
  | stderr
  | nowhere
  deriving DecidableEq

/-- The targets of standard output and standard error. -/
structure Targets where
  output : Target := .stdout
  error : Target := .stderr

def Targets.get (targets : Targets) (descriptor : Nat) : Target :=
  if descriptor = 1 then targets.output else if descriptor = 2 then targets.error else .nowhere

def Targets.set (targets : Targets) (descriptor : Nat) (target : Target) : Targets :=
  if descriptor = 1 then { targets with output := target }
  else if descriptor = 2 then { targets with error := target }
  else targets

def Targets.apply (targets : Targets) : Redirect → Targets
  | .duplicate descriptor target => targets.set descriptor (targets.get target)
  | .discard descriptor => targets.set descriptor .nowhere
  | .input _ => targets
  | .file _ => targets

/-- Sends what a command wrote where its redirections lead. -/
def deliver (before : State) (targets : Targets) (after : State) : State :=
  let send := fun (state : State) (target : Target) (bytes : List UInt8) =>
    match target with
    | .stdout => { state with stdout := state.stdout ++ bytes }
    | .stderr => { state with stderr := state.stderr ++ bytes }
    | .nowhere => state
  let start := { after with
    stdout := before.stdout, stderr := before.stderr, input := before.input }
  send (send start targets.output after.stdout) targets.error after.stderr

/-- The input that redirections give, or the input from outside; an error is the path of a file
that cannot be read. -/
def inputOf (state : State) (redirects : List Redirect) : Except String (List UInt8) :=
  redirects.foldlM
    (fun input redirect =>
      match redirect with
      | .input content => .ok (Text.utf8 (state.text content).toList)
      | .file path =>
        match state.look (state.text path) with
        | .ok (.file content _) => .ok (Text.utf8 content.toList)
        | .ok _ => .ok []
        | .error _ => .error (state.text path)
      | _ => .ok input)
    state.input

/-- The line that messages about a command name. -/
def Command.line : Command → Nat
  | .simple line _ => line
  | _ => 1

/-- Goes on behind a subshell, of which only its output, its time and its exit code are left. -/
def State.afterSubshell (state inner : State) : State :=
  let after := { state with
    stdout := inner.stdout
    stderr := inner.stderr
    milliseconds := inner.milliseconds
    code := inner.code }
  match inner.ending with
  | none => after
  | some (.exited code) => if state.hasEnded then state else { after with code := code }
  | some (.killed signal) => if state.hasEnded then state else after.finish (.killed signal)

/-- Takes turns until one is the last, at most so many; each takes a millisecond. -/
def takeTurns (turn : State → State × Bool) : Nat → State → State
  | 0, state => state
  | turns + 1, state =>
    let (state, goesOn) := turn { state with milliseconds := state.milliseconds + 1 }
    if goesOn then takeTurns turn turns state else state

/-- As many turns as a loop may take. -/
def turnLimit : Nat := 4000

mutual

def Command.run : Command → State → State
  | .simple line words, state => if state.isPast then state else runSimple line words state
  | .redirected command redirects, state =>
    match inputOf state redirects with
    | .error path =>
      state.complain 2 s!"{state.name}: {command.line}: cannot open {path}: No such file\n"
    | .ok input =>
      let inner := { state with stdout := [], stderr := [], input := input }
      deliver state (redirects.foldl Targets.apply {}) (command.run inner)
  | .group body, state => runAll body state
  | .subshell body, state => state.afterSubshell (runAll body state)
  | .pipe first second, state =>
    let writer := first.run { state with stdout := [] }
    let reader := second.run { state with
      input := writer.stdout
      stderr := writer.stderr
      milliseconds := writer.milliseconds }
    state.afterSubshell reader
  | .repeated name words body, state =>
    let turn := fun (state : State) (value : String) =>
      if state.isPast then state else (runAll body (state.set name value)).afterTurn
    ((words.flatMap state.fields).foldl turn state).afterLoop
  | .loop goesOn test body, state =>
    let turn := fun (before : State) =>
      let tested := runAll test before
      if tested.isPast || (tested.code = 0) != goesOn then
        ({ tested with code := before.code }, false)
      else
        let after := (runAll body tested).afterTurn
        (after, !after.isPast)
    if state.isPast then state else (takeTurns turn turnLimit { state with code := 0 }).afterLoop
  | .choice subject branches, state => runBranches branches (state.text subject).toList state
  | .condition test yes no, state =>
    let state := runAll test state
    if state.code = 0 then runAll yes state else runAll no state
  | .both first second, state =>
    let state := first.run state
    if state.code = 0 then second.run state else state
  | .either first second, state =>
    let state := first.run state
    if state.code = 0 then state else second.run state
  | .negation command, state =>
    let state := command.run state
    { state with code := if state.code = 0 then 1 else 0 }

def runAll : List Command → State → State
  | [], state => state
  | command :: rest, state => runAll rest (command.run state)

def runBranches : List (List Word × List Command) → List Char → State → State
  | [], _, state => { state with code := 0 }
  | (patterns, body) :: rest, subject, state =>
    if patterns.any fun word => matchesPattern (patternOf state word) subject then
      runAll body { state with code := 0 }
    else runBranches rest subject state

end

end GitHistory.Shell
