import GitHistory.Commit.Json
import GitHistory.Text.Blank
import GitHistory.Error

/-!
The stream that git prints for a history query: one JSON object per commit, each followed by a
comma. Git fills the fields in as they are, so a quote inside one breaks the object. Decoding
closes the stream to a JSON list and takes all of it or nothing.
-/
namespace GitHistory

/-- The fields that the log format asks for. -/
inductive LogField where
  | hash
  | name
  | email
  | date
  | subject
  | body
  deriving Repr, DecidableEq

/-- How git's format language asks for a field. -/
def LogField.placeholder : LogField → String
  | .hash => "%H"
  | .name => "%cn"
  | .email => "%ce"
  | .date => "%cd"
  | .subject => "%s"
  | .body => "%b"

def LogRecord.get (entry : LogRecord) : LogField → String
  | .hash => entry.hash
  | .name => entry.name
  | .email => entry.email
  | .date => entry.date
  | .subject => entry.subject
  | .body => entry.body

/-- A piece of the log format. -/
inductive FormatPiece where
  | literal (text : String)
  | field (field : LogField)

/-- The format of one fragment. -/
def logFormat : List FormatPiece := [
  .literal "\x7b\"commit\":\"", .field .hash,
  .literal "\",\"commiter\":\x7b\"name\":\"", .field .name,
  .literal "\",\"email\":\"", .field .email,
  .literal "\",\"date\":\"", .field .date,
  .literal "\"\x7d,\"subject\":\"", .field .subject,
  .literal "\",\"body\":\"", .field .body,
  .literal "\"\x7d,"]

/-- The format with every field written by `fill`. -/
def fillFormat (fill : LogField → String) : List FormatPiece → String
  | [] => ""
  | .literal text :: rest => text ++ fillFormat fill rest
  | .field field :: rest => fill field ++ fillFormat fill rest

/-- The option that makes git print fragments. -/
def formatOption : String :=
  "--pretty=format:" ++ fillFormat LogField.placeholder logFormat

/-- The option that makes git print dates in strict ISO 8601 form. -/
def dateOption : String := "--date=iso-strict"

/-- What git prints for one commit. -/
def LogRecord.expand (entry : LogRecord) : String :=
  fillFormat entry.get logFormat

def fragmentSeparator : Char := ','

def isLineEnd (c : Char) : Bool := c == '\n' || c == '\r'

/-- Closes a fragment stream to a JSON list; a blank stream has none. Line ends behind the last
separator do not count. -/
def repairFragments (raw : String) : Except GitError (Option String) :=
  let trimmed := Text.trimEnd isLineEnd raw.toList
  if Text.isBlankText trimmed then .ok none
  else
    match trimmed.reverse with
    | last :: body =>
      if last = fragmentSeparator then
        .ok (some (String.ofList ('[' :: body.reverse ++ [']'])))
      else .error (.decode "output does not end with ',' fragment separator")
    | [] => .ok none

/-- The list of records in a closed stream. -/
def logRecords : Json.Reader (List LogRecord) := do
  match ← Json.Reader.valueToken with
  | '[' => do
    Json.Reader.advance
    Json.Reader.elements LogRecord.reader true
  | _ => Json.Reader.wrongType (.record "CommitFragment")

/-- A commit has to have a hash. -/
def commitOf (checkoutPath : String) (entry : LogRecord) : Except GitError Commit :=
  if entry.hash.isEmpty then .error (.decode "fragment has an empty commit hash")
  else .ok (Commit.ofRecord checkoutPath entry)

/-- The commits that a fragment stream describes, in order. -/
def decodeLog (raw checkoutPath : String) : Except GitError (List Commit) := do
  match ← repairFragments raw with
  | none => pure []
  | some list =>
    match Json.Reader.parse logRecords list.toList with
    | .error failure => throw (.decode (failure.message list.toList))
    | .ok entries => entries.mapM (commitOf checkoutPath)

end GitHistory
