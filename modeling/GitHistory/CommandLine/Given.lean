import GitHistory.CommandLine.Parameter

/-!
What was given: for each parameter its value or nothing. A value has the type that its parameter
asks for.
-/
namespace GitHistory.CommandLine

/-- Values by parameter. -/
def Given := (parameter : Parameter) → Option parameter.Value

namespace Given

def nothing : Given := fun _ => none

def set (given : Given) (parameter : Parameter) (value : parameter.Value) : Given :=
  fun other => if same : parameter = other then some (same ▸ value) else given other

/-- What was given in either; the first has precedence. -/
def orElse (given others : Given) : Given :=
  fun parameter => (given parameter).or (others parameter)

/-- Whether a flag was given. -/
def has (given : Given) (parameter : Parameter) : Bool := (given parameter).isSome

end Given

/-- Environment variables and their values. -/
abbrev Environment := List (String × String)

namespace Environment

/-- The text that the environment has for a parameter. -/
def text? (environment : Environment) (parameter : Parameter) : Option String :=
  parameter.environmentName?.bind fun name => environment.lookup name

/-- What the environment gives, as far as it can be read. -/
def given (environment : Environment) : Given :=
  fun parameter => (environment.text? parameter).bind fun text => (parameter.read text).toOption

/-- Refuses an environment that has something unreadable for an option that was not given. -/
def check (environment : Environment) (given : Given) : List Parameter → Except Usage Unit
  | [] => .ok ()
  | parameter :: rest =>
    match given parameter, environment.text? parameter with
    | none, some text =>
      match parameter.read text with
      | .ok _ => environment.check given rest
      | .error usage => .error usage
    | _, _ => environment.check given rest

end Environment

end GitHistory.CommandLine
