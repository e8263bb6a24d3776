import GitHistory.Commit.Basic
import GitHistory.Store.History
import GitHistory.Store.Message
import GitHistory.Text.Utf8

/-!
Commits of a repository as a history query reports them. Bytes that are not UTF-8 give an empty
text, and a time that the calendar does not reach gives a failure.
-/
namespace GitHistory

namespace Time

/-- First and last second of the calendar. -/
def firstSecond : Int := -8334601228800

def lastSecond : Int := 8210266876799

/-- Whether the calendar has a second. -/
def isInCalendar (seconds : Int) : Bool :=
  decide (firstSecond ≤ seconds) && decide (seconds ≤ lastSecond)

end Time

/-- Date and time of day at an offset in minutes, in strict ISO 8601 form. -/
def isoStrict (seconds minutes : Int) : Except GitError String :=
  let offset := minutes * 60
  let outOfRange : GitError := .decode s!"Commit time out of range: {seconds} offset {minutes}"
  if 2147483648 ≤ offset ∨ offset < -2147483648 then
    .error (.worker "attempt to multiply with overflow")
  else if 86400 ≤ offset.natAbs ∨ !Time.isInCalendar seconds then .error outOfRange
  else if !Time.isInCalendar (seconds + offset) then
    .error (.worker (String.ofList
      ("Local time out of range for ".toList ++ Char.ofNat 96 :: "NaiveDateTime".toList ++
        [Char.ofNat 96])))
  else .ok (Time.Timestamp.rfc3339 ⟨seconds, 0, offset⟩)

namespace Store

/-- The fields of a commit as text. -/
def record (id : ObjectId) (text : CommitText) : Except GitError LogRecord := do
  let signature := text.committer
  pure {
    hash := id
    name := Text.decodeUtf8OrEmpty signature.name
    email := Text.decodeUtf8OrEmpty signature.email
    date := ← isoStrict signature.seconds signature.offset
    subject := Text.decodeUtf8OrEmpty (Message.summary text.message)
    body := Text.decodeUtf8OrEmpty (Message.body text.message) }

/-- The commit of an id. -/
def read (store : Store) (checkoutPath : String) (id : ObjectId) : Except GitError Commit := do
  let (_, text) ← (store.readCommit id).mapError .store
  pure (Commit.ofRecord checkoutPath (← record id text))

/-- The commits of a range, newest first. -/
def commitsForRange (store : Store) (root : String) (range : RevisionRange) (count : Nat) :
    Except GitError (List Commit) := do
  (← store.range range count).mapM (store.read root)

/-- The commit that a revision stands for. -/
def commitByReference (store : Store) (root reference : String) : Except GitError Commit := do
  store.read root (← store.resolve reference)

end Store

end GitHistory
