import GitHistory.Text.Split
import GitHistory.Time.Timestamp
import GitHistory.Json.Value

/-!
Commits as a history query reports them, and the raw fields they are made of.
-/
namespace GitHistory

/-- The fields that git prints for one commit. -/
structure LogRecord where
  hash : String
  name : String
  email : String
  date : String
  subject : String
  body : String
  deriving Repr, DecidableEq

structure Commit where
  hash : String
  author : String
  date : String
  message : String
  checkoutPath : String
  deriving Repr, DecidableEq

namespace Commit

/-- The commit of a record, read from a checkout. -/
def ofRecord (checkoutPath : String) (entry : LogRecord) : Commit where
  hash := entry.hash
  author := entry.name ++ " <" ++ entry.email ++ ">"
  date := entry.date
  message := entry.subject ++ "\n" ++ entry.body
  checkoutPath := checkoutPath

/-- The characters in the first `size` bytes, if the text has that many bytes and no character
lies across the border. -/
def bytesFront? : Nat → List Char → Option (List Char)
  | 0, _ => some []
  | _ + 1, [] => none
  | size + 1, c :: rest =>
    if c.utf8Size ≤ size + 1 then (bytesFront? (size + 1 - c.utf8Size) rest).map (c :: ·)
    else none
  termination_by _ text => text.length

/-- The first seven bytes of the hash, or all of it where they are not whole characters. -/
def shortHash (commit : Commit) : String :=
  match bytesFront? 7 commit.hash.toList with
  | some front => String.ofList front
  | none => commit.hash

/-- The first line of the message. -/
def subject (commit : Commit) : String :=
  String.ofList ((Text.lines commit.message.toList).headD [])

/-- The committer date with its offset. -/
def timestamp (commit : Commit) : Except Time.TimestampFault Time.Timestamp :=
  Time.Timestamp.parse commit.date

def toJson (commit : Commit) : Json.Value :=
  .object [
    ("hash", .string commit.hash),
    ("author", .string commit.author),
    ("date", .string commit.date),
    ("message", .string commit.message),
    ("checkout_path", .string commit.checkoutPath)]

/-- The members of the JSON form in alphabetical order. -/
def toSortedJson (commit : Commit) : Json.Value :=
  .object [
    ("author", .string commit.author),
    ("checkout_path", .string commit.checkoutPath),
    ("date", .string commit.date),
    ("hash", .string commit.hash),
    ("message", .string commit.message)]

end Commit

end GitHistory
