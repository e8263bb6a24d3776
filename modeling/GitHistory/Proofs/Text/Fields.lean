import GitHistory.Text.Blank
import GitHistory.Text.Numeral
import GitHistory.Text.Split

/-! Fields of a text that was put together from fields: cutting and splitting give them back, and
a count that was written in decimal digits is read as it was. -/
namespace GitHistory.Text

theorem cut?_append {separator : Char} {before : List Char} (clean : separator ∉ before)
    (after : List Char) : cut? separator (before ++ separator :: after) = some (before, after) := by
  induction before with
  | nil => simp [cut?]
  | cons c rest ih =>
    obtain ⟨different, clean⟩ : separator ≠ c ∧ separator ∉ rest := by simpa using clean
    simp [cut?, Ne.symm different, ih clean]

theorem cut?_eq_some_iff {separator : Char} {text before after : List Char} :
    cut? separator text = some (before, after) ↔
      text = before ++ separator :: after ∧ separator ∉ before := by
  constructor
  · intro found
    induction text generalizing before with
    | nil => cases found
    | cons c rest ih =>
      rw [cut?] at found
      split at found
      · rename_i same
        cases found
        exact ⟨by rw [same, List.nil_append], List.not_mem_nil⟩
      · rename_i different
        obtain ⟨⟨front, behind⟩, cut, parts⟩ := Option.map_eq_some_iff.mp found
        cases parts
        obtain ⟨rfl, clean⟩ := ih cut
        refine ⟨rfl, fun member => ?_⟩
        rcases List.mem_cons.mp member with same | inside
        · exact different same.symm
        · exact clean inside
  · rintro ⟨rfl, clean⟩
    exact cut?_append clean after

/-- A text is cut into fields as a list is. -/
theorem splitOn_eq (separator : Char) (text : List Char) :
    splitOn separator text = text.splitOn separator := by
  induction text with
  | nil => exact (List.splitOn_nil separator).symm
  | cons c rest ih =>
    rw [splitOn, List.splitOn_cons_eq_if_modifyHead, ← ih]
    by_cases same : c = separator
    · simp [same]
    · cases fields : splitOn separator rest with
      | nil => exact absurd fields (splitOn_ne_nil separator rest)
      | cons field fields => simp [same]

/-- A separator parts a text into what is cut on either side of it. -/
theorem splitOn_append_cons (separator : Char) (front rest : List Char) :
    splitOn separator (front ++ separator :: rest) =
      splitOn separator front ++ splitOn separator rest := by
  rw [splitOn_eq, splitOn_eq, splitOn_eq, List.splitOn_append_cons_self]

theorem splitOn_of_not_mem {separator : Char} {text : List Char} (clean : separator ∉ text) :
    splitOn separator text = [text] := by
  rw [splitOn_eq, List.splitOn_eq_singleton clean]

theorem splitOn_append {separator : Char} {field : List Char} (clean : separator ∉ field)
    (rest : List Char) :
    splitOn separator (field ++ separator :: rest) = field :: splitOn separator rest := by
  rw [splitOn_append_cons, splitOn_of_not_mem clean, List.singleton_append]

theorem not_mem_of_mem_splitOn {separator : Char} {text field : List Char}
    (member : field ∈ splitOn separator text) : separator ∉ field := by
  induction text generalizing field with
  | nil =>
    rw [List.mem_singleton.mp member]
    exact List.not_mem_nil
  | cons c rest ih =>
    rw [splitOn] at member
    split at member
    · rcases List.mem_cons.mp member with rfl | later
      · exact List.not_mem_nil
      · exact ih later
    · rename_i different
      cases fields : splitOn separator rest with
      | nil => exact absurd fields (splitOn_ne_nil separator rest)
      | cons first others =>
        rw [fields] at member ih
        rcases List.mem_cons.mp member with rfl | later
        · have clean := ih List.mem_cons_self
          simpa [Ne.symm different] using clean
        · exact ih (List.mem_cons_of_mem first later)

/-- The first field is what stands before the first separator. -/
theorem head?_splitOn (separator : Char) (text : List Char) :
    (splitOn separator text).head? = some (text.takeWhile (· != separator)) := by
  induction text with
  | nil => rfl
  | cons c rest ih =>
    rw [splitOn]
    by_cases same : c = separator
    · simp [same]
    · cases fields : splitOn separator rest with
      | nil => exact absurd fields (splitOn_ne_nil separator rest)
      | cons field others =>
        rw [fields, List.head?_cons, Option.some.injEq] at ih
        simp [same, ih]

theorem dropWhile_eq_self {drop : Char → Bool} {text : List Char}
    (kept : ∀ c ∈ text, drop c = false) : text.dropWhile drop = text := by
  cases text with
  | nil => rfl
  | cons c rest => exact List.dropWhile_cons_of_neg (by simp [kept c])

/-- A text without blanks is not changed by trimming. -/
theorem trim_eq_self {text : List Char} (solid : ∀ c ∈ text, isBlank c = false) :
    trim text = text := by
  have turned : ∀ c ∈ text.reverse, isBlank c = false := by
    intro c member
    exact solid c (List.mem_reverse.mp member)
  rw [trim, dropWhile_eq_self solid, trimEnd, dropWhile_eq_self turned, List.reverse_reverse]

/-! Decimal digits. -/

theorem isDigit_range {c : Char} (digit : c.isDigit = true) : 48 ≤ c.toNat ∧ c.toNat ≤ 57 := by
  simp only [Char.isDigit, Bool.and_eq_true, decide_eq_true_eq] at digit
  exact digit

theorem isBlank_of_isDigit {c : Char} (digit : c.isDigit = true) : isBlank c = false := by
  obtain ⟨least, most⟩ := isDigit_range digit
  have value : c.val.toNat = c.toNat := rfl
  apply Bool.eq_false_iff.mpr
  intro blank
  simp [isBlank, UInt32.le_iff_toNat_le, ← UInt32.toNat_inj] at blank
  omega

theorem digitValue?_of_isDigit {c : Char} (digit : c.isDigit = true) :
    digitValue? c = some (c.toNat - 48) := by
  have range : '0' ≤ c ∧ c ≤ '9' := by
    obtain ⟨least, most⟩ := isDigit_range digit
    exact ⟨Char.le_def.mpr least, Char.le_def.mpr most⟩
  simp [digitValue?, range]

theorem foldl_digits {text : List Char} (digits : ∀ c ∈ text, c.isDigit = true) (start : Nat) :
    text.foldl (fun value c => value.bind fun n => (digitValue? c).map fun d => n * 10 + d)
      (some start) = some (Nat.ofDigitChars 10 text start) := by
  induction text generalizing start with
  | nil => rfl
  | cons c rest ih =>
    have first := digits c List.mem_cons_self
    have others : ∀ c ∈ rest, c.isDigit = true := by
      intro c member
      exact digits c (List.mem_cons_of_mem _ member)
    rw [List.foldl_cons, digitValue?_of_isDigit first, Nat.ofDigitChars_cons]
    simp only [Option.bind_some, Option.map_some]
    rw [ih others, Nat.mul_comm]
    rfl

/-- Digits are read as their value. -/
theorem digits?_eq {text : List Char} (some : text ≠ []) (digits : ∀ c ∈ text, c.isDigit = true) :
    digits? text = .some (Nat.ofDigitChars 10 text 0) := by
  cases text with
  | nil => exact absurd rfl some
  | cons first rest => exact foldl_digits digits 0

/-- A count in decimal digits. -/
def decimal (count : UInt64) : List Char := (toString count.toNat).toList

theorem decimal_eq (count : UInt64) : decimal count = Nat.toDigits 10 count.toNat := by
  simp [decimal, Nat.repr]

theorem isDigit_of_mem_decimal {count : UInt64} {c : Char} (member : c ∈ decimal count) :
    c.isDigit = true := by
  rw [decimal_eq] at member
  exact Nat.isDigit_of_mem_toDigits (by decide) (by decide) member

theorem decimal_ne_nil (count : UInt64) : decimal count ≠ [] := by
  rw [decimal_eq]
  exact Nat.toDigits_ne_nil

theorem digits?_decimal (count : UInt64) : digits? (decimal count) = some count.toNat := by
  have digits : ∀ c ∈ decimal count, c.isDigit = true := by
    intro c member
    exact isDigit_of_mem_decimal member
  rw [digits?_eq (decimal_ne_nil count) digits, decimal_eq,
    Nat.ofDigitChars_toDigits (by decide) (by decide)]

/-- A count is read back from its decimal digits. -/
theorem readCount?_decimal (count : UInt64) : readCount? (decimal count) = some count := by
  have unsigned : ∀ rest, decimal count ≠ '+' :: rest := by
    intro rest signed
    have digit := isDigit_of_mem_decimal (signed ▸ List.mem_cons_self : '+' ∈ decimal count)
    exact absurd digit (by decide)
  have bounded : count.toNat < UInt64.size := count.toNat_lt
  rw [readCount?, digits?_decimal]
  · simp [bounded]
  · intro rest signed
    exact unsigned rest signed

end GitHistory.Text
