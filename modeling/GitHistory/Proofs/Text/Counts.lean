import GitHistory.Proofs.Text.Fields
import GitHistory.Proofs.Text.Trimmed

/-! Columns that stand for a count. What is read is said here without reading: blanks around an
optional plus sign and decimal digits, whose value is a count. -/
namespace GitHistory.Text

/-- A column that stands for a count. -/
inductive IsCountColumn (count : UInt64) : List Char → Prop where
  | written {lead sign digits trail : List Char} (before : ∀ c ∈ lead, isBlank c = true)
      (signs : sign = [] ∨ sign = ['+']) (some : digits ≠ [])
      (decimal : ∀ c ∈ digits, c.isDigit = true)
      (value : Nat.ofDigitChars 10 digits 0 = count.toNat)
      (behind : ∀ c ∈ trail, isBlank c = true) :
      IsCountColumn count (lead ++ (sign ++ digits ++ trail))

theorem isDigit_of_digitValue? {c : Char} {value : Nat} (found : digitValue? c = some value) :
    c.isDigit = true := by
  rw [digitValue?] at found
  split at found
  · rename_i range
    simp only [Char.isDigit, Bool.and_eq_true, decide_eq_true_eq]
    exact ⟨Char.le_def.mp range.1, Char.le_def.mp range.2⟩
  · cases found

/-- Reading stops for good at what is no digit. -/
theorem isDigit_of_foldl_digits {text : List Char} {start : Option Nat} {value : Nat}
    (found : text.foldl
      (fun value c => value.bind fun n => (digitValue? c).map fun d => n * 10 + d) start =
        some value) : start.isSome = true ∧ ∀ c ∈ text, c.isDigit = true := by
  induction text generalizing start with
  | nil =>
    rw [List.foldl_nil] at found
    exact ⟨Option.isSome_of_eq_some found, fun c member => absurd member List.not_mem_nil⟩
  | cons c rest ih =>
    rw [List.foldl_cons] at found
    obtain ⟨here, others⟩ := ih found
    obtain ⟨next, stepped⟩ := Option.isSome_iff_exists.mp here
    obtain ⟨before, given, read⟩ := Option.bind_eq_some_iff.mp stepped
    obtain ⟨digit, valued, -⟩ := Option.map_eq_some_iff.mp read
    refine ⟨Option.isSome_of_eq_some given, ?_⟩
    exact List.forall_mem_cons.mpr ⟨isDigit_of_digitValue? valued, others⟩

theorem digits?_eq_some_iff {text : List Char} {value : Nat} :
    digits? text = some value ↔
      text ≠ [] ∧ (∀ c ∈ text, c.isDigit = true) ∧ Nat.ofDigitChars 10 text 0 = value := by
  constructor
  · intro found
    have solid : text ≠ [] := by
      rintro rfl
      cases found
    have digits : ∀ c ∈ text, c.isDigit = true := by
      cases text with
      | nil => exact absurd rfl solid
      | cons first rest => exact (isDigit_of_foldl_digits found).2
    rw [digits?_eq solid digits] at found
    exact ⟨solid, digits, Option.some.inj found⟩
  · rintro ⟨solid, digits, rfl⟩
    exact digits?_eq solid digits

theorem countOf_eq_some_iff {value : Option Nat} {count : UInt64} :
    (value.bind fun n => if n < UInt64.size then some (UInt64.ofNat n) else none) = some count ↔
      value = some count.toNat := by
  constructor
  · intro found
    obtain ⟨value, rfl, counted⟩ := Option.bind_eq_some_iff.mp found
    split at counted
    · rename_i small
      rw [← Option.some.inj counted, UInt64.toNat_ofNat_of_lt' small]
    · cases counted
  · rintro rfl
    have small : count.toNat < UInt64.size := count.toNat_lt
    simp [small]

/-- A numeral is digits with at most one sign before them. -/
theorem readCount?_eq_some_iff {text : List Char} {count : UInt64} :
    readCount? text = some count ↔ ∃ sign digits, text = sign ++ digits ∧
      (sign = [] ∨ sign = ['+']) ∧ digits? digits = some count.toNat := by
  constructor
  · intro found
    dsimp only [readCount?] at found
    split at found
    · exact ⟨['+'], _, rfl, .inr rfl, countOf_eq_some_iff.mp found⟩
    · exact ⟨[], text, rfl, .inl rfl, countOf_eq_some_iff.mp found⟩
  · rintro ⟨sign, digits, rfl, rfl | rfl, read⟩
    · have unsigned : ∀ rest, digits ≠ '+' :: rest := by
        rintro rest rfl
        have digit := (digits?_eq_some_iff.mp read).2.1 '+' List.mem_cons_self
        exact absurd digit (by decide)
      rw [List.nil_append, readCount?]
      · exact countOf_eq_some_iff.mpr read
      · exact unsigned
    · exact countOf_eq_some_iff.mpr read

/-- A column is read as a count just if it stands for it. -/
theorem readCount?_trim_iff {column : List Char} {count : UInt64} :
    readCount? (trim column) = some count ↔ IsCountColumn count column := by
  rw [readCount?_eq_some_iff]
  constructor
  · rintro ⟨sign, digits, trimmed, signs, read⟩
    obtain ⟨lead, trail, parted, before, behind⟩ := exists_trim column
    obtain ⟨some, decimal, value⟩ := digits?_eq_some_iff.mp read
    rw [parted, trimmed]
    exact .written before signs some decimal value behind
  · rintro ⟨before, signs, some, decimal, value, behind⟩
    rename_i lead sign digits trail
    have solid : ∀ c ∈ sign ++ digits, isBlank c = false := by
      intro c member
      rcases List.mem_append.mp member with inSign | inDigits
      · rcases signs with rfl | rfl
        · cases inSign
        · rw [List.mem_singleton.mp inSign]
          decide
      · exact isBlank_of_isDigit (decimal c inDigits)
    rw [trim_append before behind, trim_eq_self solid]
    exact ⟨sign, digits, rfl, signs, digits?_eq_some_iff.mpr ⟨some, decimal, value⟩⟩

end GitHistory.Text
