import GitHistory.Commit.Basic
import GitHistory.Json.Typed

/-!
Reading commits and log records from JSON. Each is a record: an object with every field once,
beside any others, or a list of the fields in order.
-/
namespace GitHistory

open Json (Reader)
open Json.Reader

/-- The fields of a commit seen so far. -/
structure CommitFields where
  hash : Option String := none
  author : Option String := none
  date : Option String := none
  message : Option String := none
  checkoutPath : Option String := none

def CommitFields.step (given : CommitFields) (key : String) : Reader CommitFields := do
  match key with
  | "hash" => pure { given with hash := ← field key given.hash (string .string) }
  | "author" => pure { given with author := ← field key given.author (string .string) }
  | "date" => pure { given with date := ← field key given.date (string .string) }
  | "message" => pure { given with message := ← field key given.message (string .string) }
  | "checkout_path" =>
    pure { given with checkoutPath := ← field key given.checkoutPath (string .string) }
  | _ => do
    unknownField
    pure given

def CommitFields.finish (given : CommitFields) : Reader Commit := do
  pure {
    hash := ← required "hash" given.hash
    author := ← required "author" given.author
    date := ← required "date" given.date
    message := ← required "message" given.message
    checkoutPath := ← required "checkout_path" given.checkoutPath }

def commitByPosition : Reader Commit := do
  let arity : Json.Arity := .record "Commit" 5
  pure {
    hash := ← element arity 0 (string .string)
    author := ← element arity 1 (string .string)
    date := ← element arity 2 (string .string)
    message := ← element arity 3 (string .string)
    checkoutPath := ← element arity 4 (string .string) }

def Commit.reader : Reader Commit :=
  record "Commit" CommitFields.step {} CommitFields.finish commitByPosition

/-- Name, address and date of a committer. -/
structure Committer where
  name : String
  email : String
  date : String

structure CommitterFields where
  name : Option String := none
  email : Option String := none
  date : Option String := none

def CommitterFields.step (given : CommitterFields) (key : String) :
    Reader CommitterFields := do
  match key with
  | "name" => pure { given with name := ← field key given.name (string .string) }
  | "email" => pure { given with email := ← field key given.email (string .string) }
  | "date" => pure { given with date := ← field key given.date (string .string) }
  | _ => do
    unknownField
    pure given

def CommitterFields.finish (given : CommitterFields) : Reader Committer := do
  pure {
    name := ← required "name" given.name
    email := ← required "email" given.email
    date := ← required "date" given.date }

def committerByPosition : Reader Committer := do
  let arity : Json.Arity := .record "Signature" 3
  pure {
    name := ← element arity 0 (string .string)
    email := ← element arity 1 (string .string)
    date := ← element arity 2 (string .string) }

def committerReader : Reader Committer :=
  record "Signature" CommitterFields.step {} CommitterFields.finish committerByPosition

structure RecordFields where
  hash : Option String := none
  committer : Option Committer := none
  subject : Option String := none
  body : Option String := none

def RecordFields.step (given : RecordFields) (key : String) : Reader RecordFields := do
  match key with
  | "commit" => pure { given with hash := ← field key given.hash (string .string) }
  | "commiter" => pure { given with committer := ← field key given.committer committerReader }
  | "subject" => pure { given with subject := ← field key given.subject (string .string) }
  | "body" => pure { given with body := ← field key given.body (string .string) }
  | _ => do
    unknownField
    pure given

def logRecord (hash : String) (committer : Committer) (subject body : String) :
    LogRecord :=
  ⟨hash, committer.name, committer.email, committer.date, subject, body⟩

def RecordFields.finish (given : RecordFields) : Reader LogRecord := do
  let hash ← required "commit" given.hash
  let committer ← required "commiter" given.committer
  let subject ← required "subject" given.subject
  let body ← required "body" given.body
  pure (logRecord hash committer subject body)

def recordByPosition : Reader LogRecord := do
  let arity : Json.Arity := .record "CommitFragment" 4
  let hash ← element arity 0 (string .string)
  let committer ← element arity 1 committerReader
  let subject ← element arity 2 (string .string)
  let body ← element arity 3 (string .string)
  pure (logRecord hash committer subject body)

/-- A log record as git prints it. -/
def LogRecord.reader : Reader LogRecord :=
  record "CommitFragment" RecordFields.step {} RecordFields.finish recordByPosition

end GitHistory
