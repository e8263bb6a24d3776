import Mathlib.Data.Int.Init
import GitHistory.Proofs.Time.Calendar

/-! The calendar told from day to day, by the lengths of its months alone. Every day has the date that
is reckoned for it, and no other. -/
namespace GitHistory.Time

/-- The day after. -/
def Date.next (date : Date) : Date :=
  if date.day < daysInMonth date.year date.month then ⟨date.year, date.month, date.day + 1⟩
  else if date.month < 12 then ⟨date.year, date.month + 1, 1⟩
  else ⟨date.year + 1, 1, 1⟩

/-- The date that a day falls on. Days are counted from 1970-01-01, in both directions. -/
inductive FallsOn : Int → Date → Prop where
  | epoch : FallsOn 0 ⟨1970, 1, 1⟩
  | next {day : Int} {date : Date} (falls : FallsOn day date) : FallsOn (day + 1) date.next
  | previous {day : Int} {date : Date} (real : date.isReal = true)
      (falls : FallsOn (day + 1) date.next) : FallsOn day date

theorem Date.isReal_iff {date : Date} : date.isReal = true ↔
    (1 ≤ date.month ∧ date.month ≤ 12) ∧ 1 ≤ date.day ∧
      date.day ≤ daysInMonth date.year date.month := by
  simp [Date.isReal, and_assoc]

theorem one_le_daysInMonth (year : Int) (month : Nat) : 1 ≤ daysInMonth year month := by
  rw [daysInMonth]
  split
  · split <;> decide
  · split <;> decide

theorem Date.isReal_next {date : Date} (real : date.isReal = true) : date.next.isReal = true := by
  obtain ⟨month, day⟩ := isReal_iff.mp real
  rw [Date.next]
  split
  · exact isReal_iff.mpr ⟨month, by dsimp only; omega, by dsimp only; omega⟩
  · split
    · exact isReal_iff.mpr ⟨by dsimp only; omega, Nat.le_refl 1, one_le_daysInMonth _ _⟩
    · exact isReal_iff.mpr ⟨by dsimp only; omega, Nat.le_refl 1, one_le_daysInMonth _ _⟩

theorem isLeapYear_iff (year : Int) :
    isLeapYear year = true ↔ year % 4 = 0 ∧ (year % 100 ≠ 0 ∨ year % 400 = 0) := by
  simp [isLeapYear]

/-- The first day of a month comes after the last day of the month before. -/
theorem toDays_first {year : Int} {month : Nat} (range : 1 ≤ month ∧ month < 12) :
    Date.toDays ⟨year, month + 1, 1⟩ = Date.toDays ⟨year, month, daysInMonth year month⟩ + 1 := by
  have leap := isLeapYear_iff year
  -- years are reckoned from March, so after February comes another year, with the leap day before it
  by_cases february : month = 2
  · subst february
    by_cases long : isLeapYear year = true
    · have reckoned := leap.mp long
      simp [Date.toDays, daysInMonth, long]
      omega
    · have reckoned := mt leap.mpr long
      simp [Date.toDays, daysInMonth, long]
      omega
  · by_cases january : month = 1
    · subst january
      simp [Date.toDays, daysInMonth]
      omega
    · have late : ¬ month ≤ 2 := by omega
      have later : ¬ month + 1 ≤ 2 := by omega
      simp only [Date.toDays, daysInMonth, if_neg february, if_neg late, if_neg later]
      split
      · omega
      · obtain rfl | rfl | rfl | rfl | rfl :
            month = 3 ∨ month = 5 ∨ month = 7 ∨ month = 8 ∨ month = 10 := by omega
        all_goals omega

/-- The day after is one day later. -/
theorem Date.toDays_next {date : Date} (real : date.isReal = true) :
    date.next.toDays = date.toDays + 1 := by
  obtain ⟨year, month, day⟩ := date
  obtain ⟨months, days⟩ := isReal_iff.mp real
  dsimp only at months days
  rw [Date.next]
  dsimp only
  split
  · simp only [Date.toDays]
    omega
  · obtain rfl : day = daysInMonth year month := by omega
    split
    · exact toDays_first ⟨months.1, by assumption⟩
    · obtain rfl : month = 12 := by omega
      simp [Date.toDays, daysInMonth]
      omega

/-! A date is told by its day. -/

/-- The days before a year from March, over all eras. -/
def daysBefore (year : Int) : Int := year / 400 * 146097 + daysBeforeYear (year % 400)

theorem daysBefore_eq (year : Int) :
    daysBefore year = 365 * year + year / 4 - year / 100 + year / 400 := by
  rw [daysBefore, daysBeforeYear]
  omega

theorem daysBefore_mono {year later : Int} (le : year ≤ later) :
    daysBefore year ≤ daysBefore later := by
  rw [daysBefore_eq, daysBefore_eq]
  omega

/-- A year is as long as the days that are in it. -/
theorem lt_daysBefore_succ {year dayOfYear : Int} (range : dayOfYear ≤ 365)
    (leap : dayOfYear = 365 → EndsInLeapDay year) :
    daysBefore year + dayOfYear < daysBefore (year + 1) := by
  rw [daysBefore_eq, daysBefore_eq]
  by_cases last : dayOfYear = 365
  · obtain ⟨fourth, century⟩ := leap last
    omega
  · omega

theorem daysInMonth_february (year : Int) :
    daysInMonth year 2 = if isLeapYear year then 29 else 28 := rfl

theorem daysInMonth_short (year : Int) {month : Nat}
    (short : month = 4 ∨ month = 6 ∨ month = 9 ∨ month = 11) : daysInMonth year month = 30 := by
  obtain rfl | rfl | rfl | rfl := short <;> rfl

/-- A date by the year from March that it is in and its day of that year. -/
theorem exists_fromMarch_of_isReal {date : Date} (real : date.isReal = true) :
    ∃ year dayOfYear passed, FromMarch date year dayOfYear passed ∧
      (0 ≤ dayOfYear ∧ dayOfYear ≤ 365) ∧ (dayOfYear = 365 → EndsInLeapDay year) := by
  have range := Date.range_of_isReal real
  obtain ⟨year, month, day⟩ := date
  obtain ⟨months, days⟩ := Date.isReal_iff.mp real
  dsimp only at months days range
  by_cases soon : month ≤ 2
  · have february : month = 2 → day ≤ 28 ∨ isLeapYear year = true ∧ day ≤ 29 := by
      rintro rfl
      rw [daysInMonth_february] at days
      split at days
      · exact .inr ⟨by assumption, days.2⟩
      · exact .inl days.2
    have leap := isLeapYear_iff year
    obtain ⟨passed, counted⟩ : ∃ passed : Int, passed = month + 9 := ⟨_, rfl⟩
    refine ⟨year - 1, (153 * passed + 2) / 5 + day - 1, passed, ⟨by omega, rfl, days.1, by omega,
      .inr ⟨by omega, by dsimp only; omega, by dsimp only; omega⟩⟩, by omega, ?_⟩
    intro last
    rw [EndsInLeapDay, Int.sub_add_cancel]
    exact leap.mp ((february (by omega)).resolve_left (by omega)).1
  · have short : month = 4 ∨ month = 6 ∨ month = 9 ∨ month = 11 → day ≤ 30 := by
      intro listed
      rw [daysInMonth_short year listed] at days
      exact days.2
    obtain ⟨passed, counted⟩ : ∃ passed : Int, passed = month - 3 := ⟨_, rfl⟩
    refine ⟨year, (153 * passed + 2) / 5 + day - 1, passed, ⟨by omega, rfl, days.1, ?_,
      .inl ⟨by omega, by dsimp only; omega, rfl⟩⟩, by omega, by omega⟩
    -- months are of different lengths, so that the months passed have to be told apart
    obtain rfl | rfl | rfl | rfl | rfl | rfl | rfl | rfl | rfl | rfl : passed = 0 ∨ passed = 1 ∨
      passed = 2 ∨ passed = 3 ∨ passed = 4 ∨ passed = 5 ∨ passed = 6 ∨ passed = 7 ∨ passed = 8 ∨
        passed = 9 := by omega
    all_goals omega

theorem FromMarch.unique {date other : Date} {year dayOfYear passed passed' : Int}
    (first : FromMarch date year dayOfYear passed)
    (second : FromMarch other year dayOfYear passed') : date = other := by
  obtain ⟨few, dayEq, dayPos, within, place⟩ := first
  obtain ⟨few', dayEq', dayPos', within', place'⟩ := second
  obtain rfl : passed = passed' := by omega
  obtain ⟨year₁, month₁, day₁⟩ := date
  obtain ⟨year₂, month₂, day₂⟩ := other
  dsimp only at dayEq dayEq' place place'
  rw [Date.mk.injEq]
  omega

/-- Two real dates of the same day are the same. -/
theorem Date.toDays_injective {date other : Date} (real : date.isReal = true)
    (realOther : other.isReal = true) (same : date.toDays = other.toDays) : date = other := by
  obtain ⟨year, day, passed, placed, range, leap⟩ := exists_fromMarch_of_isReal real
  obtain ⟨year', day', passed', placed', range', leap'⟩ := exists_fromMarch_of_isReal realOther
  have reckoned := placed.toDays
  have reckoned' := placed'.toDays
  have equal : daysBefore year + day = daysBefore year' + day' := by
    rw [daysBefore, daysBefore]
    omega
  have inside := lt_daysBefore_succ range.2 leap
  have inside' := lt_daysBefore_succ range'.2 leap'
  have notBefore : ¬ year < year' := fun before => by
    have full : daysBefore (year + 1) ≤ daysBefore year' := daysBefore_mono before
    omega
  have notBehind : ¬ year' < year := fun behind => by
    have full : daysBefore (year' + 1) ≤ daysBefore year := daysBefore_mono behind
    omega
  obtain rfl : year = year' := by omega
  obtain rfl : day = day' := by omega
  exact placed.unique placed'

theorem Date.ofDays_toDays {date : Date} (real : date.isReal = true) :
    Date.ofDays date.toDays = date :=
  Date.toDays_injective (isReal_ofDays _) real (toDays_ofDays _)

/-- The date of the day after is the day after the date. -/
theorem Date.ofDays_succ (day : Int) : Date.ofDays (day + 1) = (Date.ofDays day).next := by
  have real := isReal_ofDays day
  have later : (Date.ofDays day).next.toDays = day + 1 := by
    rw [Date.toDays_next real, toDays_ofDays]
  rw [← later, Date.ofDays_toDays (Date.isReal_next real)]

theorem Date.next_injective {date other : Date} (real : date.isReal = true)
    (realOther : other.isReal = true) (same : date.next = other.next) : date = other := by
  have days := congrArg Date.toDays same
  rw [Date.toDays_next real, Date.toDays_next realOther] at days
  exact Date.toDays_injective real realOther (by omega)

/-- Each day falls on the date that is reckoned for it, and on no other. -/
theorem fallsOn_iff {day : Int} {date : Date} : FallsOn day date ↔ Date.ofDays day = date := by
  constructor
  · intro falls
    -- a step back is reckoned forward, and the day after tells the date
    induction falls with
    | epoch => rfl
    | next _ ih => rw [Date.ofDays_succ, ih]
    | previous real _ ih =>
      rw [Date.ofDays_succ] at ih
      exact Date.next_injective (isReal_ofDays _) real ih
  · rintro rfl
    induction day using Int.induction_on with
    | zero => exact .epoch
    | succ day ih =>
      rw [Date.ofDays_succ]
      exact .next ih
    | pred day ih =>
      refine .previous (isReal_ofDays _) ?_
      rw [← Date.ofDays_succ, Int.sub_add_cancel]
      exact ih

end GitHistory.Time
