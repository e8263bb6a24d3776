/-!
Shell scripts: words made of pieces, and commands made of words. Only what small scripts use is
there: no functions, no arithmetic, no substitution of commands.
-/
namespace GitHistory.Shell

/-- What stands for a parameter that is not set, or the other way round for one that is set;
perhaps an empty one counts as not set. -/
structure Fallback where
  text : String
  emptyIsUnset : Bool
  forSet : Bool := false
  deriving Repr, DecidableEq

/-- A piece of a word; a quoted piece is never split into fields. -/
inductive Piece where
  | text (content : String) (quoted : Bool)
  | parameter (name : String) (fallback : Option Fallback) (quoted : Bool)
  deriving Repr, DecidableEq

abbrev Word := List Piece

/-- A change of the standard streams of a command. -/
inductive Redirect where
  | duplicate (descriptor target : Nat)
  | discard (descriptor : Nat)
  | input (content : Word)
  | file (path : Word)
  deriving Repr, DecidableEq

inductive Command where
  | simple (line : Nat) (words : List Word)
  | redirected (command : Command) (redirects : List Redirect)
  | group (body : List Command)
  | subshell (body : List Command)
  | repeated (name : String) (words : List Word) (body : List Command)
  | choice (subject : Word) (branches : List (List Word × List Command))
  | loop (goesOn : Bool) (test : List Command) (body : List Command)
  | condition (test : List Command) (yes : List Command) (no : List Command)
  | both (first second : Command)
  | either (first second : Command)
  | pipe (first second : Command)
  | negation (command : Command)

end GitHistory.Shell
