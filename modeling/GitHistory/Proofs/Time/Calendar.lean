import GitHistory.Time.Calendar

/-! The date of a day is a day that the calendar has, and is as many days from 1970-01-01 as the day
is. Years run from March here, as they do in the arithmetic. -/
namespace GitHistory.Time

/-- The days of an era before one of its years. -/
def daysBeforeYear (year : Int) : Int := 365 * year + year / 4 - year / 100

/-- Whether there is a leap day at the end of a year. -/
def EndsInLeapDay (year : Int) : Prop :=
  (year + 1) % 4 = 0 ∧ ((year + 1) % 100 ≠ 0 ∨ (year + 1) % 400 = 0)

theorem isLeapYear_of_endsInLeapDay {year : Int} (ends : EndsInLeapDay year) :
    isLeapYear (year + 1) = true := by
  obtain ⟨fourth, century⟩ := ends
  simp only [isLeapYear, Bool.and_eq_true, Bool.or_eq_true, beq_iff_eq, bne_iff_ne]
  exact ⟨fourth, century⟩

theorem Date.range_of_isReal {date : Date} (real : date.isReal = true) :
    date.month ≤ 12 ∧ date.day ≤ 31 := by
  simp only [Date.isReal, Bool.and_eq_true, decide_eq_true_eq] at real
  have short : daysInMonth date.year date.month ≤ 31 := by
    rw [daysInMonth]
    split
    · split <;> decide
    · split <;> decide
  omega

/-- A day of an era, by the year that it is in and the days of that year before it. -/
structure InEra (dayOfEra year dayOfYear : Int) : Prop where
  year_range : 0 ≤ year ∧ year ≤ 399
  day_range : 0 ≤ dayOfYear ∧ dayOfYear ≤ 365
  leap : dayOfYear = 365 → EndsInLeapDay year
  day_eq : dayOfEra = daysBeforeYear year + dayOfYear

/-- The year of a day of an era, as the calendar reckons it. -/
def yearOfEra (dayOfEra : Int) : Int :=
  (dayOfEra - dayOfEra / 1460 + dayOfEra / 36524 - dayOfEra / 146096) / 365

/-- A day of a century of an era: four years are one day too long for their share but at the end. -/
theorem year_of_century {century day quarter year : Int} (first : 0 ≤ century ∧ century ≤ 3)
    (inside : 0 ≤ day ∧ day < 36524) (quarters : quarter = (24 * century + day) / 1460)
    (years : year = (day - quarter) / 365) :
    (0 ≤ year ∧ year ≤ 99) ∧
      (0 ≤ day - (365 * year + year / 4) ∧ day - (365 * year + year / 4) ≤ 365) ∧
      (day - (365 * year + year / 4) = 365 → (year + 1) % 4 = 0 ∧ year ≤ 98) := by
  have range : 0 ≤ year ∧ year ≤ 99 := by omega
  refine ⟨range, by omega, ?_⟩
  intro last
  -- the day is behind the share of the four years, so it ends the last of them
  have behind : year / 4 + 1 ≤ quarter := by omega
  have late : 1460 * (year / 4 + 1) ≤ 24 * century + day := by omega
  have fourth : 3 ≤ year - 4 * (year / 4) := by omega
  omega

theorem daysBeforeYear_century (century : Int) {year : Int} (range : 0 ≤ year ∧ year ≤ 99) :
    daysBeforeYear (100 * century + year) = 36524 * century + (365 * year + year / 4) := by
  rw [daysBeforeYear]
  omega

theorem inEra_yearOfEra {dayOfEra : Int} (inside : 0 ≤ dayOfEra ∧ dayOfEra < 146097) :
    InEra dayOfEra (yearOfEra dayOfEra) (dayOfEra - daysBeforeYear (yearOfEra dayOfEra)) := by
  by_cases last : dayOfEra = 146096
  · subst last
    exact ⟨by decide, by decide, fun _ => ⟨by decide, by decide⟩, by decide⟩
  · obtain ⟨century, centuries⟩ : ∃ century, century = dayOfEra / 36524 := ⟨_, rfl⟩
    obtain ⟨day, days⟩ : ∃ day, day = dayOfEra % 36524 := ⟨_, rfl⟩
    obtain ⟨year, years⟩ : ∃ year, year = (day - (24 * century + day) / 1460) / 365 := ⟨_, rfl⟩
    have first : 0 ≤ century ∧ century ≤ 3 := by omega
    obtain ⟨yearRange, dayRange, leap⟩ := year_of_century first (by omega) rfl years
    have whole : yearOfEra dayOfEra = 100 * century + year := by
      rw [yearOfEra]
      omega
    have before := daysBeforeYear_century century yearRange
    rw [whole]
    refine ⟨by omega, by omega, ?_, by omega⟩
    intro isLast
    have ends := leap (by omega)
    exact ⟨by omega, Or.inl (by omega)⟩

/-! The months of a year that starts in March. -/

/-- The date of a day of a year. -/
def Date.ofMarchYear (year dayOfYear : Int) : Date :=
  let monthFromMarch := (5 * dayOfYear + 2) / 153
  let day := dayOfYear - (153 * monthFromMarch + 2) / 5 + 1
  let month := if monthFromMarch < 10 then monthFromMarch + 3 else monthFromMarch - 9
  ⟨if month ≤ 2 then year + 1 else year, month.toNat, day.toNat⟩

theorem Date.ofDays_eq (days : Int) :
    Date.ofDays days = Date.ofMarchYear
      (yearOfEra ((days + 719468) % 146097) + (days + 719468) / 146097 * 400)
      ((days + 719468) % 146097 - daysBeforeYear (yearOfEra ((days + 719468) % 146097))) := rfl

/-- A date by the months from March on that passed before it in its year. -/
structure FromMarch (date : Date) (year dayOfYear passed : Int) : Prop where
  few : 0 ≤ passed ∧ passed ≤ 11
  day_eq : dayOfYear = (153 * passed + 2) / 5 + date.day - 1
  day_pos : 1 ≤ date.day
  within : dayOfYear < (153 * (passed + 1) + 2) / 5
  placed : passed ≤ 9 ∧ (date.month : Int) = passed + 3 ∧ date.year = year ∨
    10 ≤ passed ∧ (date.month : Int) = passed - 9 ∧ date.year = year + 1

theorem exists_fromMarch (year : Int) {dayOfYear : Int}
    (range : 0 ≤ dayOfYear ∧ dayOfYear ≤ 365) :
    ∃ passed, FromMarch (Date.ofMarchYear year dayOfYear) year dayOfYear passed := by
  obtain ⟨passed, months⟩ : ∃ passed, passed = (5 * dayOfYear + 2) / 153 := ⟨_, rfl⟩
  have few : 0 ≤ passed ∧ passed ≤ 11 := by omega
  have start : (153 * passed + 2) / 5 ≤ dayOfYear := by omega
  obtain ⟨day, days⟩ : ∃ day : Nat, (day : Int) = dayOfYear - (153 * passed + 2) / 5 + 1 :=
    ⟨_, Int.toNat_of_nonneg (by omega)⟩
  have within : dayOfYear < (153 * (passed + 1) + 2) / 5 := by omega
  refine ⟨passed, ?_⟩
  rw [Date.ofMarchYear, ← months, ← days]
  by_cases early : passed < 10
  · have notEarly : ¬ passed + 3 ≤ 2 := by omega
    have month : ((passed + 3).toNat : Int) = passed + 3 := Int.toNat_of_nonneg (by omega)
    simp only [if_pos early, if_neg notEarly, Int.toNat_natCast]
    exact ⟨few, by dsimp only; omega, by dsimp only; omega, within, Or.inl ⟨by omega, month, rfl⟩⟩
  · have soon : passed - 9 ≤ 2 := by omega
    have month : ((passed - 9).toNat : Int) = passed - 9 := Int.toNat_of_nonneg (by omega)
    simp only [if_neg early, if_pos soon, Int.toNat_natCast]
    exact ⟨few, by dsimp only; omega, by dsimp only; omega, within, Or.inr ⟨by omega, month, rfl⟩⟩

namespace FromMarch

variable {date : Date} {year dayOfYear passed : Int}

/-- No month has more days than the calendar says, if the year has a leap day where one is meant. -/
theorem day_le (placed : FromMarch date year dayOfYear passed) (range : dayOfYear ≤ 365)
    (leap : dayOfYear = 365 → EndsInLeapDay year) :
    date.day ≤ daysInMonth date.year date.month := by
  obtain ⟨few, dayEq, -, within, place⟩ := placed
  rw [daysInMonth]
  split
  · rename_i february
    obtain ⟨late, next⟩ : passed = 11 ∧ date.year = year + 1 := by omega
    subst late
    split
    · omega
    · rename_i common
      have notLast : dayOfYear ≠ 365 := fun last =>
        common (next ▸ isLeapYear_of_endsInLeapDay (leap last))
      omega
  · split
    · omega
    · omega

/-- The calendar has the date. -/
theorem isReal (placed : FromMarch date year dayOfYear passed) (range : dayOfYear ≤ 365)
    (leap : dayOfYear = 365 → EndsInLeapDay year) : date.isReal = true := by
  have short := placed.day_le range leap
  obtain ⟨few, -, dayPos, -, place⟩ := placed
  have month : 1 ≤ date.month ∧ date.month ≤ 12 := by omega
  simp [Date.isReal, month, dayPos, short]

theorem toDays (placed : FromMarch date year dayOfYear passed) :
    date.toDays = year / 400 * 146097 + (daysBeforeYear (year % 400) + dayOfYear) - 719468 := by
  obtain ⟨few, dayEq, dayPos, within, place⟩ := placed
  obtain ⟨dateYear, month, day⟩ := date
  dsimp only at dayEq dayPos place
  rw [Date.toDays, daysBeforeYear]
  rcases place with ⟨early, monthEq, rfl⟩ | ⟨late, monthEq, rfl⟩
  · have notSoon : ¬ month ≤ 2 := by omega
    simp only [if_neg notSoon]
    omega
  · have soon : month ≤ 2 := by omega
    simp only [if_pos soon]
    omega

end FromMarch

/-! The date of a day. -/

/-- The date of a day by the year from March that it is in. -/
theorem exists_fromMarch_ofDays (days : Int) : ∃ era year dayOfYear passed,
    InEra ((days + 719468) % 146097) year dayOfYear ∧ era = (days + 719468) / 146097 ∧
      FromMarch (Date.ofDays days) (year + era * 400) dayOfYear passed := by
  have inEra : InEra ((days + 719468) % 146097) _ _ := inEra_yearOfEra (by omega)
  obtain ⟨passed, placed⟩ := exists_fromMarch _ inEra.day_range
  exact ⟨_, _, _, passed, inEra, rfl, Date.ofDays_eq days ▸ placed⟩

theorem isReal_ofDays (days : Int) : (Date.ofDays days).isReal = true := by
  obtain ⟨era, year, dayOfYear, passed, inEra, -, placed⟩ := exists_fromMarch_ofDays days
  refine placed.isReal inEra.day_range.2 fun last => ?_
  obtain ⟨fourth, century⟩ := inEra.leap last
  exact ⟨by omega, by omega⟩

/-- A day is told by its date. -/
theorem toDays_ofDays (days : Int) : (Date.ofDays days).toDays = days := by
  obtain ⟨era, year, dayOfYear, passed, inEra, eras, placed⟩ := exists_fromMarch_ofDays days
  obtain ⟨yearRange, -, -, dayEq⟩ := inEra
  have whole : (year + era * 400) / 400 = era ∧ (year + era * 400) % 400 = year := by omega
  rw [placed.toDays, whole.1, whole.2, ← dayEq]
  omega

/-- The days whose years have four digits. -/
theorem year_ofDays_iff (days : Int) :
    (0 ≤ (Date.ofDays days).year ∧ (Date.ofDays days).year ≤ 9999) ↔
      -719528 ≤ days ∧ days ≤ 2932896 := by
  obtain ⟨era, year, dayOfYear, passed, inEra, eras, placed⟩ := exists_fromMarch_ofDays days
  obtain ⟨yearRange, dayRange, -, dayEq⟩ := inEra
  obtain ⟨few, passedEq, dayPos, within, place⟩ := placed
  -- an era ends in the middle of the calendar's year
  have early : passed ≤ 9 ↔ dayOfYear ≤ 305 := by omega
  by_cases last : year = 399
  · subst last
    have before : daysBeforeYear 399 = 145731 := by decide
    omega
  · have before : 0 ≤ daysBeforeYear year ∧ daysBeforeYear year ≤ 145369 := by
      rw [daysBeforeYear]
      omega
    omega

end GitHistory.Time
