import GitHistory.Text.Quoted

/-!
What travels with every call: credentials and a cancellation token. Tokens form a forest, and
cancelling one cancels all that descend from it, born before or after; nothing undoes it.
-/
namespace GitHistory

structure Credentials where
  username : String
  password : String
  deriving Repr, DecidableEq

/-- The form that may be shown: without the password. -/
def Credentials.shown (credentials : Credentials) : String :=
  "Credentials \x7b username: " ++ Text.quoted credentials.username ++
    ", password: " ++ Text.quoted "<redacted>" ++ " \x7d"

/-- A token knows its number and the numbers of all its ancestors, nearest first. -/
structure Token where
  id : Nat
  ancestors : List Nat
  deriving Repr, DecidableEq

namespace Token

/-- The token and everything it descends from. -/
def lineage (token : Token) : List Nat := token.id :: token.ancestors

/-- A token is cancelled when it or an ancestor of it was. -/
def isCancelled (cancelled : List Nat) (token : Token) : Bool :=
  token.lineage.any cancelled.contains

/-- A token that is cancelled together with `parent`. -/
def child (parent : Token) (id : Nat) : Token := ⟨id, parent.lineage⟩

end Token

structure Context where
  token : Token
  credentials : Option Credentials
  deriving Repr, DecidableEq

/-- What a call sees of its context: whether it is cancelled by now, and the credentials. -/
structure Caller where
  cancelled : Bool := false
  credentials : Option Credentials := none
  deriving Repr, DecidableEq

/-- Contexts in the order they were made, the number of tokens made so far, and the numbers
of those that were cancelled themselves. -/
structure Contexts where
  all : List Context
  tokens : Nat
  cancelled : List Nat
  deriving Repr

namespace Contexts

/-- One context with a token of its own. -/
def start : Contexts := ⟨[⟨⟨0, []⟩, none⟩], 1, []⟩

def isCancelled (contexts : Contexts) (context : Context) : Bool :=
  context.token.isCancelled contexts.cancelled

/-- What a call under a context sees of it. -/
def caller (contexts : Contexts) (context : Context) : Caller :=
  ⟨contexts.isCancelled context, context.credentials⟩

/-- What can be done with the context of an index. -/
inductive Step where
  | fresh
  | clone (source : Nat)
  | child (parent : Nat)
  | share (source : Nat)
  | login (source : Nat) (credentials : Credentials)
  | cancel (source : Nat)
  deriving Repr

private def push (contexts : Contexts) (context : Context) : Contexts :=
  { contexts with all := contexts.all ++ [context] }

private def pushToken (contexts : Contexts) (token : Token) : Contexts :=
  { contexts with all := contexts.all ++ [⟨token, none⟩], tokens := contexts.tokens + 1 }

/-- Does a step; one on a context that there is not changes nothing. -/
def apply (contexts : Contexts) (step : Step) : Contexts :=
  match step with
  | .fresh => contexts.pushToken ⟨contexts.tokens, []⟩
  | .clone source =>
    match contexts.all[source]? with
    | some context => contexts.push context
    | none => contexts
  | .child parent =>
    match contexts.all[parent]? with
    | some context => contexts.pushToken (context.token.child contexts.tokens)
    | none => contexts
  | .share source =>
    match contexts.all[source]? with
    | some context => contexts.push ⟨context.token, none⟩
    | none => contexts
  | .login source credentials =>
    match contexts.all[source]? with
    | some context => contexts.push ⟨context.token, some credentials⟩
    | none => contexts
  | .cancel source =>
    match contexts.all[source]? with
    | some context => { contexts with cancelled := context.token.id :: contexts.cancelled }
    | none => contexts

/-- The states after each of the steps. -/
def run (contexts : Contexts) : List Step → List Contexts
  | [] => []
  | step :: rest => contexts.apply step :: run (contexts.apply step) rest

end Contexts

end GitHistory
