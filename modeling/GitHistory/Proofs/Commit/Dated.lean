import GitHistory.Proofs.InProcess.Dates
import GitHistory.Proofs.Time.Days

/-! The date of a commit and its timestamp. In years of four digits each tells the other: what is
printed is the calendar's date and the clock, it is read as the time that it was printed for, and no
other time is printed like it. -/
namespace GitHistory

namespace Time

theorem isInCalendar_iff {seconds : Int} :
    isInCalendar seconds = true ↔ -8334601228800 ≤ seconds ∧ seconds ≤ 8210266876799 := by
  rw [isInCalendar, Bool.and_eq_true, decide_eq_true_eq, decide_eq_true_eq, firstSecond, lastSecond]

/-- The calendar has all years of four digits, at whatever offset. -/
theorem isInCalendar_of_fourDigitYear {seconds offset : Int} (short : offset.natAbs < 86400)
    (year : HasFourDigitYear (seconds + offset)) :
    isInCalendar seconds = true ∧ isInCalendar (seconds + offset) = true := by
  rw [HasFourDigitYear] at year
  rw [isInCalendar_iff, isInCalendar_iff]
  omega

theorem clock_at_eq {seconds offset : Int} {date : Date}
    (falls : FallsOn ((seconds + offset) / 86400) date) :
    Clock.at seconds offset = ⟨date, ((seconds + offset) % 86400).toNat⟩ := by
  rw [Clock.at, fallsOn_iff.mp falls]

end Time

theorem isoStrict_eq {seconds minutes : Int} (short : minutes.natAbs < 1440)
    (year : Time.HasFourDigitYear (seconds + minutes * 60)) :
    isoStrict seconds minutes = .ok (Time.Timestamp.rfc3339 ⟨seconds, 0, minutes * 60⟩) := by
  have offset : (minutes * 60).natAbs < 86400 := by omega
  have fits : ¬ (2147483648 ≤ minutes * 60 ∨ minutes * 60 < -2147483648) := by omega
  obtain ⟨utc, locally⟩ := Time.isInCalendar_of_fourDigitYear offset year
  have within : ¬ (86400 ≤ (minutes * 60).natAbs ∨ (!Time.isInCalendar seconds) = true) := by
    simp [utc]
    omega
  rw [isoStrict, if_neg fits, if_neg within, locally]
  rfl

/-- A time whose date is read as a timestamp is that timestamp. -/
theorem eq_of_isoStrict {seconds minutes otherSeconds otherMinutes : Int} {text : String}
    (printed : isoStrict otherSeconds otherMinutes = .ok text)
    (read : Time.Timestamp.parse text = .ok ⟨seconds, 0, minutes * 60⟩) :
    otherSeconds = seconds ∧ otherMinutes = minutes := by
  have told := dateTold_isoStrict otherSeconds otherMinutes
  rw [printed] at told
  cases told with
  | legible _ _ same =>
    rw [read, Except.ok.injEq, Time.Timestamp.mk.injEq] at same
    omega
  | signed _ _ _ refused =>
    rw [read] at refused
    cases refused

/-- A committer time whose local date falls in a year of four digits, at an offset below a day. -/
theorem isoStrict_read_back {seconds minutes : Int} {date : Time.Date}
    (short : minutes.natAbs < 1440)
    (falls : Time.FallsOn ((seconds + minutes * 60) / 86400) date)
    (year : 0 ≤ date.year ∧ date.year ≤ 9999) :
    ∃ text, isoStrict seconds minutes = .ok text ∧
      text.toList = Time.yearText date.year ++
        Time.afterYear ⟨date, ((seconds + minutes * 60) % 86400).toNat⟩ (minutes * 60) ∧
      (∀ commit : Commit, commit.date = text →
        commit.timestamp = .ok ⟨seconds, 0, minutes * 60⟩) ∧
      ∀ otherSeconds otherMinutes, isoStrict otherSeconds otherMinutes = .ok text →
        otherSeconds = seconds ∧ otherMinutes = minutes := by
  have clock := Time.clock_at_eq falls
  have fourDigits : Time.HasFourDigitYear (seconds + minutes * 60) :=
    (Time.year_at_iff seconds (minutes * 60)).mp (by rw [clock]; exact year)
  have read := Time.parse_rfc3339 fourDigits (Int.mul_emod_left minutes 60) (by omega)
  refine ⟨_, isoStrict_eq short fourDigits, ?_, ?_, fun _ _ printed => eq_of_isoStrict printed read⟩
  · rw [Time.toList_rfc3339, clock]
  · rintro commit dated
    rw [Commit.timestamp, dated]
    exact read

/-- The first second of the year 0, on a clock that is a day ahead but for a minute. -/
theorem isoStrict_read_back_year_zero :
    (1439 : Int).natAbs < 1440 ∧ Time.FallsOn ((-62167305540 + 1439 * 60) / 86400) ⟨0, 1, 1⟩ ∧
    isoStrict (-62167305540) 1439 = .ok "0000-01-01T00:00:00+23:59" ∧
    (⟨"", "", "0000-01-01T00:00:00+23:59", "", ""⟩ : Commit).timestamp =
      .ok ⟨-62167305540, 0, 86340⟩ := by
  have short : (1439 : Int).natAbs < 1440 := by decide
  have falls : Time.FallsOn ((-62167305540 + 1439 * 60) / 86400) ⟨0, 1, 1⟩ :=
    Time.fallsOn_iff.mpr (by rfl)
  obtain ⟨text, printed, shown, read, -⟩ := isoStrict_read_back short falls (by decide)
  have same : text = "0000-01-01T00:00:00+23:59" := by
    apply String.toList_injective
    rw [shown]
    rfl
  subst same
  exact ⟨short, falls, printed, read _ rfl⟩

end GitHistory
