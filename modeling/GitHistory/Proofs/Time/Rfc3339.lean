import Mathlib.Algebra.Group.Nat.Defs
import GitHistory.Proofs.Text.Fields
import GitHistory.Proofs.Time.Calendar
import GitHistory.Time.Timestamp

/-! Timestamps are read back from their RFC 3339 form as long as the local year has four digits; the
form of any other year, which has a sign, is refused. -/
namespace GitHistory

namespace Text

theorem length_le_utf8Size (text : List Char) : text.length ≤ utf8Size text := by
  induction text with
  | nil => exact Nat.le_refl 0
  | cons c rest ih =>
    have one := c.utf8Size_pos
    rw [List.length_cons, utf8Size]
    omega

end Text

namespace Time

/-! Numbers of a fixed width. -/

theorem le_length_padded (width n : Nat) : width ≤ (padded width n).length := by
  rw [padded, List.length_append, List.length_replicate]
  omega

theorem length_padded {width n : Nat} (some : 0 < width) (small : n < 10 ^ width) :
    (padded width n).length = width := by
  have short := (Nat.length_toDigits_le_iff (by decide) some).mpr small
  rw [padded, List.length_append, List.length_replicate]
  omega

theorem isDigit_of_mem_padded {width n : Nat} {c : Char} (member : c ∈ padded width n) :
    c.isDigit = true := by
  rcases List.mem_append.mp member with zero | digit
  · rw [(List.mem_replicate.mp zero).2]
    decide
  · exact Nat.isDigit_of_mem_toDigits (by decide) (by decide) digit

theorem digits?_padded {width n : Nat} : Text.digits? (padded width n) = some n := by
  have some : padded width n ≠ [] := List.append_ne_nil_of_right_ne_nil _ Nat.toDigits_ne_nil
  rw [Text.digits?_eq some fun c member => isDigit_of_mem_padded member, padded,
    Nat.ofDigitChars_append, Nat.ofDigitChars_replicate_zero, Nat.mul_zero,
    Nat.ofDigitChars_toDigits (by decide) (by decide)]

/-- A number of the right width is read as it is. -/
theorem digits_padded {width n : Nat} (some : 0 < width) (small : n < 10 ^ width)
    (rest : List Char) : digits width (padded width n ++ rest) = .ok (n, rest) := by
  have length := length_padded some small
  rw [digits, List.take_left' length, digits?_padded, List.drop_left' length]
  dsimp only
  rw [if_pos]
  rw [List.length_append]
  omega

/-- What starts with anything but a digit is no number. -/
theorem digits_invalid {count : Nat} (some : 0 < count) {sign : Char}
    (noDigit : Text.digitValue? sign = none) (rest : List Char) :
    digits count (sign :: rest) = .error .invalid := by
  have nothing : ∀ text : List Char, text.foldl
      (fun value c => value.bind fun n => (Text.digitValue? c).map fun d => n * 10 + d) none =
        (none : Option Nat) := by
    intro text
    induction text with
    | nil => rfl
    | cons c rest ih => exact ih
  obtain ⟨count, rfl⟩ := Nat.exists_eq_add_one_of_ne_zero (Nat.ne_of_gt some)
  rw [digits, List.take_succ_cons, Text.digits?, List.foldl_cons, noDigit]
  simp [nothing]

/-- A parser that succeeds hands over to the next one. -/
theorem run_bind {α β : Type} {first : Parser α} {next : α → Parser β} {text rest : List Char}
    {value : α} (run : first text = .ok (value, rest)) : (first >>= next) text = next value rest := by
  simp [bind, StateT.bind, run, Except.bind]

theorem guardRange_ok {holds : Bool} (kept : holds = true) (text : List Char) :
    guardRange holds text = .ok ((), text) := by
  rw [guardRange, if_pos kept]
  rfl

theorem ended_ok : ended [] = .ok ((), []) := rfl

theorem oneOf_ok {allowed : List Char} {c : Char} (member : c ∈ allowed) (rest : List Char) :
    oneOf allowed (c :: rest) = .ok ((), rest) := by
  rw [oneOf, if_pos member]

theorem offsetColon_ok (rest : List Char) : offsetColon (':' :: rest) = .ok ((), rest) := rfl

theorem twoDigits_padded {n : Nat} (small : n < 100) (rest : List Char) :
    twoDigits (padded 2 n ++ rest) = .ok (n, rest) := by
  have long : 2 ≤ Text.utf8Size (padded 2 n ++ rest) := by
    have length := Text.length_le_utf8Size (padded 2 n ++ rest)
    rw [List.length_append, length_padded (by decide) small] at length
    omega
  rw [twoDigits, if_neg (Nat.not_lt_of_le long)]
  exact digits_padded (by decide) small rest

/-! Offsets of whole minutes. -/

theorem signedOffset_padded {minutes : Nat} (short : minutes < 1440) (negative : Bool)
    (rest : List Char) :
    signedOffset negative
        (padded 2 (minutes / 60) ++ ':' :: (padded 2 (minutes % 60) ++ rest)) =
      .ok (if negative then -(minutes * 60 : Int) else minutes * 60, rest) := by
  have seconds : ((minutes / 60 : Nat) * 3600 + (minutes % 60 : Nat) * 60 : Int) = minutes * 60 := by
    omega
  rw [signedOffset, run_bind (twoDigits_padded (by omega) _), run_bind (offsetColon_ok _),
    run_bind (twoDigits_padded (by omega) _), run_bind (guardRange_ok (decide_eq_true (by omega)) _), seconds]
  rfl

theorem offset_offsetText {seconds : Int} (whole : seconds % 60 = 0) (short : seconds.natAbs < 86400) :
    offset (offsetText seconds) = .ok (seconds, []) := by
  obtain ⟨minutes, reckoned⟩ : ∃ minutes, minutes = seconds.natAbs / 60 := ⟨_, rfl⟩
  have fits : minutes < 1440 := by omega
  have written := signedOffset_padded fits (decide (seconds < 0)) []
  have same : (if decide (seconds < 0) = true then -(minutes * 60 : Int) else minutes * 60) =
      seconds := by
    split
    · rename_i negative
      have := of_decide_eq_true negative
      omega
    · rename_i positive
      have := mt decide_eq_true positive
      omega
  rw [same, List.append_nil] at written
  rw [offsetText, ← reckoned]
  by_cases negative : seconds < 0
  · rw [if_pos negative]
    rw [decide_eq_true negative] at written
    exact written
  · rw [if_neg negative]
    rw [decide_eq_false negative] at written
    exact written

/-! Whole timestamps. -/

/-- The local date and the second of the day. -/
structure Clock where
  date : Date
  second : Nat

/-- What a clock shows at a moment, at an offset. -/
def Clock.at (unix offset : Int) : Clock :=
  ⟨Date.ofDays ((unix + offset) / 86400), ((unix + offset) % 86400).toNat⟩

theorem second_at (unix offset : Int) :
    ((Clock.at unix offset).second : Int) = (unix + offset) % 86400 :=
  Int.toNat_of_nonneg (Int.emod_nonneg _ (by decide))

/-- What stands behind the year. -/
def afterYear (clock : Clock) (offset : Int) : List Char :=
  '-' :: (padded 2 clock.date.month ++ '-' :: (padded 2 clock.date.day ++
    'T' :: (padded 2 (clock.second / 3600) ++ ':' :: (padded 2 (clock.second / 60 % 60) ++
      ':' :: (padded 2 (clock.second % 60) ++ offsetText offset)))))

theorem toList_rfc3339 (unix offset : Int) :
    (Timestamp.rfc3339 ⟨unix, 0, offset⟩).toList =
      yearText (Clock.at unix offset).date.year ++ afterYear (Clock.at unix offset) offset := by
  simp [Timestamp.rfc3339, afterYear, Clock.at, fractionText, leapNanos]

theorem length_afterYear (clock : Clock) (offset : Int) : 15 ≤ (afterYear clock offset).length := by
  have two := le_length_padded 2
  have month := two clock.date.month
  have day := two clock.date.day
  have hour := two (clock.second / 3600)
  have minute := two (clock.second / 60 % 60)
  have second := two (clock.second % 60)
  simp only [afterYear, List.length_cons, List.length_append]
  omega

theorem length_rfc3339 (unix offset : Int) :
    19 ≤ Text.utf8Size (Timestamp.rfc3339 ⟨unix, 0, offset⟩).toList := by
  have year : 4 ≤ (yearText (Clock.at unix offset).date.year).length := by
    rw [yearText]
    split
    · exact le_length_padded 4 _
    · exact Nat.le_succ_of_le (le_length_padded 4 _)
  have rest := length_afterYear (Clock.at unix offset) offset
  have bytes := Text.length_le_utf8Size (Timestamp.rfc3339 ⟨unix, 0, offset⟩).toList
  rw [toList_rfc3339, List.length_append] at bytes
  rw [toList_rfc3339]
  omega

theorem fraction_offsetText (seconds : Int) :
    fraction (offsetText seconds) = .ok (0, offsetText seconds) := by
  rw [offsetText]
  split <;> rfl

/-- A clock that shows a year of four digits, of a date that there is, at an offset of whole
minutes. -/
structure Legible (clock : Clock) (offset : Int) : Prop where
  year : 0 ≤ clock.date.year ∧ clock.date.year ≤ 9999
  real : clock.date.isReal = true
  second : clock.second < 86400
  whole : offset % 60 = 0
  short : offset.natAbs < 86400

/-- What a clock shows is read as the moment that it shows it at. -/
theorem Legible.timestamp_eq {clock : Clock} {seconds : Int} (legible : Legible clock seconds) :
    timestamp (yearText clock.date.year ++ afterYear clock seconds) =
      .ok (⟨clock.date.toDays * 86400 + clock.second - seconds, 0, seconds⟩, []) := by
  obtain ⟨year, real, inDay, whole, short⟩ := legible
  obtain ⟨months, days⟩ := Date.range_of_isReal real
  have nonneg : (clock.date.year.toNat : Int) = clock.date.year := Int.toNat_of_nonneg year.1
  have notLeap : ¬ clock.second % 60 = 60 := by omega
  have inRange : (decide (clock.second / 3600 ≤ 23) && decide (clock.second / 60 % 60 ≤ 59) &&
      decide (clock.second % 60 ≤ 60)) = true := by
    simp only [Bool.and_eq_true, decide_eq_true_eq]
    omega
  rw [afterYear, yearText, if_pos year, timestamp, run_bind (digits_padded (by decide) (by omega) _),
    run_bind (oneOf_ok List.mem_cons_self _), run_bind (digits_padded (by decide) (by omega) _),
    run_bind (oneOf_ok List.mem_cons_self _), run_bind (digits_padded (by decide) (by omega) _)]
  dsimp only
  rw [nonneg, run_bind (guardRange_ok real _), run_bind (oneOf_ok List.mem_cons_self _),
    run_bind (digits_padded (by decide) (by omega) _), run_bind (oneOf_ok List.mem_cons_self _),
    run_bind (digits_padded (by decide) (by omega) _), run_bind (oneOf_ok List.mem_cons_self _),
    run_bind (digits_padded (by decide) (by omega) _), run_bind (fraction_offsetText seconds),
    run_bind (guardRange_ok inRange _), run_bind (offset_offsetText whole short),
    run_bind ended_ok, run_bind (guardRange_ok (decide_eq_true short) _), if_neg notLeap]
  have exactly : clock.date.toDays * 86400 + (clock.second / 3600 : Nat) * 3600 +
      (clock.second / 60 % 60 : Nat) * 60 + (clock.second % 60 : Nat) =
        clock.date.toDays * 86400 + clock.second := by
    omega
  rw [exactly, if_neg notLeap]
  rfl

/-- The local seconds whose years have four digits. -/
def HasFourDigitYear (seconds : Int) : Prop := -62167219200 ≤ seconds ∧ seconds ≤ 253402300799

instance (seconds : Int) : Decidable (HasFourDigitYear seconds) :=
  inferInstanceAs (Decidable (_ ∧ _))

theorem year_at_iff (unix offset : Int) :
    (0 ≤ (Clock.at unix offset).date.year ∧ (Clock.at unix offset).date.year ≤ 9999) ↔
      HasFourDigitYear (unix + offset) := by
  rw [Clock.at, year_ofDays_iff, HasFourDigitYear]
  omega

/-- A moment of a year with four digits is read back from its form, to the second. -/
theorem parse_rfc3339 {unix offset : Int} (year : HasFourDigitYear (unix + offset))
    (whole : offset % 60 = 0) (short : offset.natAbs < 86400) :
    Timestamp.parse (Timestamp.rfc3339 ⟨unix, 0, offset⟩) = .ok ⟨unix, 0, offset⟩ := by
  have written := toList_rfc3339 unix offset
  have second := second_at unix offset
  have legible : Legible (Clock.at unix offset) offset :=
    ⟨(year_at_iff unix offset).mpr year, isReal_ofDays _, by omega, whole, short⟩
  have long := length_rfc3339 unix offset
  rw [Timestamp.parse, if_neg (Nat.not_lt_of_le long), written, legible.timestamp_eq]
  have moment : (Clock.at unix offset).date.toDays * 86400 + (Clock.at unix offset).second -
      offset = unix := by
    rw [second, show (Clock.at unix offset).date.toDays = _ from toDays_ofDays _]
    omega
  rw [moment]
  rfl

/-- The form of a moment of any other year is refused: what is in the place of the year has a
sign. -/
theorem parse_rfc3339_signed {unix offset : Int} (year : ¬ HasFourDigitYear (unix + offset)) :
    Timestamp.parse (Timestamp.rfc3339 ⟨unix, 0, offset⟩) = .error .invalid := by
  have written := toList_rfc3339 unix offset
  have long := length_rfc3339 unix offset
  have refused : ∀ sign : Char, Text.digitValue? sign = none → ∀ rest,
      timestamp (sign :: rest) = .error .invalid := by
    intro sign noDigit rest
    have invalid : digits 4 (sign :: rest) = .error .invalid :=
      digits_invalid (by decide) noDigit rest
    simp [timestamp, bind, StateT.bind, invalid, Except.bind]
  rw [← year_at_iff] at year
  rw [Timestamp.parse, if_neg (Nat.not_lt_of_le long), written, yearText, if_neg year,
    List.cons_append]
  split
  · rw [refused '-' rfl]
    rfl
  · rw [refused '+' rfl]
    rfl

end Time

end GitHistory
