import GitHistory.Proofs.InProcess.HandedOut
import GitHistory.Proofs.Time.Rfc3339

/-! The dates of the commits that are handed out in-process. A date can be read as a timestamp just
if its local year has four digits; the calendar has other years, and dates in them are handed out
too. -/
namespace GitHistory

/-- What is told of a committer time, at an offset in minutes that is that many seconds. Each time
has one of these. -/
inductive DateTold (seconds offset : Int) : Except GitError String → Prop where
  /-- The timestamp of the date is the committer time itself. -/
  | legible {date : String} (short : offset.natAbs < 86400)
      (year : Time.HasFourDigitYear (seconds + offset))
      (read : Time.Timestamp.parse date = .ok ⟨seconds, 0, offset⟩) :
      DateTold seconds offset (.ok date)
  /-- There is a date, but its year has a sign. -/
  | signed {date : String} (short : offset.natAbs < 86400)
      (year : ¬ Time.HasFourDigitYear (seconds + offset))
      (inCalendar : Time.isInCalendar seconds = true ∧ Time.isInCalendar (seconds + offset) = true)
      (refused : Time.Timestamp.parse date = .error .invalid) : DateTold seconds offset (.ok date)
  | outOfRange {minutes : Int} (whole : offset = minutes * 60)
      (fits : -2147483648 ≤ offset ∧ offset < 2147483648)
      (beyond : 86400 ≤ offset.natAbs ∨ Time.isInCalendar seconds = false) :
      DateTold seconds offset
        (.error (.decode s!"Commit time out of range: {seconds} offset {minutes}"))
  /-- The calendar has the moment, but not at this offset. -/
  | outsideLocally {panic : String} (short : offset.natAbs < 86400)
      (inCalendar : Time.isInCalendar seconds = true)
      (beyond : Time.isInCalendar (seconds + offset) = false) :
      DateTold seconds offset (.error (.worker panic))
  /-- The offset is no number of 32 bits. -/
  | overflow {panic : String} (beyond : 2147483648 ≤ offset ∨ offset < -2147483648) :
      DateTold seconds offset (.error (.worker panic))

theorem dateTold_isoStrict (seconds minutes : Int) :
    DateTold seconds (minutes * 60) (isoStrict seconds minutes) := by
  rw [isoStrict]
  split
  · rename_i beyond
    exact .overflow beyond
  · rename_i fits
    split
    · rename_i beyond
      exact .outOfRange rfl (by omega) (by simpa using beyond)
    · rename_i within
      obtain ⟨short, listed⟩ :
          (minutes * 60).natAbs < 86400 ∧ Time.isInCalendar seconds = true := by
        simpa using within
      split
      · rename_i beyond
        exact .outsideLocally short listed (by simpa using beyond)
      · rename_i locally
        have inCalendar : Time.isInCalendar (seconds + minutes * 60) = true := by
          simpa using locally
        by_cases year : Time.HasFourDigitYear (seconds + minutes * 60)
        · exact .legible short year
            (Time.parse_rfc3339 year (Int.mul_emod_left minutes 60) short)
        · exact .signed short year ⟨listed, inCalendar⟩ (Time.parse_rfc3339_signed year)

namespace InProcess

variable {world : World} {caller : Caller} {root : RawPath} {store : Store}

/-- The dates of commits. Of a commit that can be read, what is told of its time is what a query
comes to: the query for a reference at once, that for a range when the commits before it could be
had. And all that is handed out has the date that is told of its time. -/
theorem dates_told (opened : openStore world root = .ok store) (live : caller.cancelled = false) :
    (∀ seconds minutes, DateTold seconds (minutes * 60) (isoStrict seconds minutes)) ∧
    (∀ request commits, commitsForRange world caller root request = .ok commits →
      ∀ commit ∈ commits, ∃ object text, store.readCommit commit.hash = .ok (object, text) ∧
        isoStrict text.committer.seconds text.committer.offset = .ok commit.date) ∧
    (∀ reference id object text, store.resolve reference = .ok id →
      store.readCommit id = .ok (object, text) →
      (commitByReference world caller root reference).map Commit.date =
        isoStrict text.committer.seconds text.committer.offset) ∧
    ∀ request before id after object text error,
      store.range request.range request.count.toNat = .ok (before ++ id :: after) →
      (∀ earlier ∈ before, ∃ commit, store.read root.shown earlier = .ok commit) →
      store.readCommit id = .ok (object, text) →
      isoStrict text.committer.seconds text.committer.offset = .error error →
      commitsForRange world caller root request = .error error := by
  refine ⟨dateTold_isoStrict, ?_, ?_, ?_⟩
  · intro request commits handed commit member
    obtain ⟨text, ⟨object, readable⟩, dated, -⟩ :=
      commitsForRange_readFrom opened handed commit member
    exact ⟨object, text, readable, dated⟩
  · intro reference id object text resolved readable
    rw [commitByReference_of_text opened live resolved readable]
    cases isoStrict text.committer.seconds text.committer.offset <;> rfl
  · intro request before id after object text error range fine readable failed
    have unread : store.read root.shown id = .error error := by
      rw [Store.read_eq readable, failed]
      rfl
    rw [commitsForRange_eq opened live, Store.commitsForRange, range]
    exact mapM_eq_error fine unread

end InProcess

namespace Store

/-- A commit with nothing but a time and a zone. -/
def stamped (time : String) : Object := .commit ⟨[], Text.utf8 ("A <a> " ++ time).toList, [], []⟩

/-- Three commits: of the present, of the first second of the year 10000, and of the last second of
the calendar, an hour ahead. -/
def stamps : Store where
  objects := byDigit [
    ('a', stamped "1700000000 +0530"),
    ('b', stamped "253402300800 +0000"),
    ('c', stamped "8210266876799 +0100")]
  references := [("refs/heads/main", idOf 'a'), ("refs/heads/far", idOf 'b'),
    ("refs/heads/last", idOf 'c')]
  head := .symbolic "refs/heads/main"
  remotes := []
  full := full_byDigit (by decide)

end Store

namespace InProcess

theorem dates_told_stamps :
    openStore (World.ofStore .stamps) "/repo" = .ok .stamps ∧ ({} : Caller).cancelled = false ∧
    (commitByReference (World.ofStore .stamps) {} "/repo" "main").map Commit.date =
      isoStrict 1700000000 330 ∧
    DateTold 1700000000 (330 * 60) (isoStrict 1700000000 330) := by
  have opened := openStore_ofStore .stamps
  have live : ({} : Caller).cancelled = false := rfl
  have told := dates_told opened live
  exact ⟨opened, live, told.2.2.1 "main" (Store.idOf 'a') _ _ rfl rfl, told.1 _ _⟩

/-- A date is handed out that is no timestamp, and a time that the calendar does not have locally
ends the worker. -/
theorem commitByReference_hands_out_signed_year :
    (∃ commit, commitByReference (World.ofStore .stamps) {} "/repo" "far" = .ok commit ∧
      commit.timestamp = .error .invalid) ∧
    ∃ error, commitByReference (World.ofStore .stamps) {} "/repo" "last" = .error error ∧
      error.kind = .process := by
  have opened := openStore_ofStore .stamps
  have live : ({} : Caller).cancelled = false := rfl
  have far : Store.stamps.resolve "far" = .ok (Store.idOf 'b') := rfl
  have last : Store.stamps.resolve "last" = .ok (Store.idOf 'c') := rfl
  constructor
  · refine ⟨_, commitByReference_of_text opened live far rfl, ?_⟩
    exact Time.parse_rfc3339_signed (by decide)
  · exact ⟨_, commitByReference_of_text opened live last rfl, rfl⟩

end InProcess

end GitHistory
