import GitHistory.Proofs.Json.Spelling
import GitHistory.Proofs.Text.Fields
import Mathlib.Data.List.Basic

/-! A value as the document that is printed for it: texts in escaped form, counts in decimal digits,
and white space as the layout has it. -/
namespace GitHistory.Json

/-- The white space of a layout: in front of what stands on a line of its own at some level, and
behind a colon. -/
structure Spacing where
  line : Nat → Gap
  afterColon : Gap

/-- The white space behind an item: there is some if a closing bracket follows. -/
def Spacing.behind (spacing : Spacing) (level : Nat) (last : Bool) : Gap :=
  if last then spacing.line level else Gap.none

/-- Two blanks per level. -/
def laidOutSpacing : Spacing where
  line level := ⟨lineAt level, by simp [lineAt, isSpace]⟩
  afterColon := ⟨[' '], by simp [isSpace]⟩

@[simp] theorem laidOutSpacing_line (level : Nat) :
    (laidOutSpacing.line level).chars = lineAt level := rfl

@[simp] theorem laidOutSpacing_afterColon : laidOutSpacing.afterColon.chars = [' '] := rfl

/-- The escaped form of a text. -/
noncomputable def escapedPieces (text : String) : List Piece :=
  (exists_pieces_escaped text.toList).choose

theorem escapedPieces_written (text : String) :
    writtenPieces (escapedPieces text) = text.toList.flatMap escapeChar :=
  (exists_pieces_escaped text.toList).choose_spec.1

@[simp] theorem spelled?_escapedPieces (text : String) :
    spelled? (escapedPieces text) = some text.toList :=
  (exists_pieces_escaped text.toList).choose_spec.2

theorem isDigit_of_mem_toDigits {n : Nat} {c : Char} (member : c ∈ Nat.toDigits 10 n) :
    isDigit c = true := by
  obtain ⟨least, most⟩ :=
    Text.isDigit_range (Nat.isDigit_of_mem_toDigits (by decide) (by decide) member)
  have from0 : '0' ≤ c := Char.le_def.mpr least
  have to9 : c ≤ '9' := Char.le_def.mpr most
  simp [isDigit, from0, to9]

theorem toDigits_head {n : Nat} (zero : (Nat.toDigits 10 n).head? = some '0') :
    Nat.toDigits 10 n = ['0'] := by
  induction n using Nat.strongRecOn with
  | _ n ih =>
    rcases Nat.lt_or_ge n 10 with small | large
    · rw [Nat.toDigits_of_lt_base small] at zero ⊢
      rw [Option.some.inj zero]
    · rw [Nat.toDigits_of_base_le (by decide) large,
        List.head?_append_of_ne_nil _ Nat.toDigits_ne_nil] at zero
      -- the front digits would be those of zero, but they count at least one ten
      have front := ih (n / 10) (by omega) zero
      have back := Nat.ofDigitChars_toDigits (b := 10) (n := n / 10) (by decide) (by decide)
      rw [front] at back
      have none : Nat.ofDigitChars 10 ['0'] 0 = 0 := rfl
      omega

/-- A count in decimal digits. -/
def Numeral.ofCount (n : Nat) : Numeral where
  negative := false
  whole := ⟨Nat.toDigits 10 n, Nat.toDigits_ne_nil, fun _ => isDigit_of_mem_toDigits⟩
  leading := toDigits_head
  fraction := none
  exponent := none

@[simp] theorem Numeral.ofCount_written (n : Nat) : (ofCount n).written = Nat.toDigits 10 n := by
  simp [written, unsigned, ofCount]

theorem Numeral.ofCount_head (n : Nat) :
    ∃ c more, Nat.toDigits 10 n = c :: more ∧ isDigit c = true := by
  cases chars : Nat.toDigits 10 n with
  | nil => exact absurd chars Nat.toDigits_ne_nil
  | cons c more =>
    have member : c ∈ Nat.toDigits 10 n := by simp [chars]
    exact ⟨c, more, rfl, isDigit_of_mem_toDigits member⟩

mutual

/-- A value as it is printed at a level of nesting. -/
noncomputable def Value.document (spacing : Spacing) (level : Nat) : Value → Document
  | .null => .null
  | .boolean b => .boolean b
  | .number n => .number (.ofCount n)
  | .string text => .string (escapedPieces text)
  | .list values => .list Gap.none (printedItems spacing level values)
  | .object members => .object Gap.none (printedMembers spacing level members)

/-- The items of a list at a level of nesting. -/
noncomputable def printedItems (spacing : Spacing) (level : Nat) : List Value → List (Laid Document)
  | [] => []
  | value :: rest =>
    ⟨spacing.line (level + 1), value.document spacing (level + 1),
      spacing.behind level rest.isEmpty⟩ :: printedItems spacing level rest

/-- The members of an object at a level of nesting. -/
noncomputable def printedMembers (spacing : Spacing) (level : Nat) :
    List (String × Value) → List (Member Document)
  | [] => []
  | (key, value) :: rest =>
    ⟨spacing.line (level + 1), escapedPieces key, Gap.none,
      ⟨spacing.afterColon, value.document spacing (level + 1),
        spacing.behind level rest.isEmpty⟩⟩ :: printedMembers spacing level rest

end

mutual

theorem document_laidOut (level : Nat) (value : Value) :
    (value.document laidOutSpacing level).written = value.laidOut level := by
  match value with
  | .null => rfl
  | .boolean b => rfl
  | .number n => simp [Value.document, Document.written, Value.laidOut]
  | .string text =>
    simp [Value.document, Document.written, Value.laidOut, escapedPieces_written, stringText]
  | .list values =>
    cases values with
    | nil => rfl
    | cons value rest =>
      have items := items_laidOut level true (value :: rest) (List.cons_ne_nil value rest)
      simp [Value.document, Document.written, Value.laidOut, items, leadingComma]
  | .object members =>
    cases members with
    | nil => rfl
    | cons member rest =>
      have members := members_laidOut level true (member :: rest) (List.cons_ne_nil member rest)
      simp [Value.document, Document.written, Value.laidOut, members, leadingComma]

theorem items_laidOut (level : Nat) (first : Bool) (values : List Value) (some : values ≠ []) :
    writtenItems first (printedItems laidOutSpacing level values) =
      leadingComma first ++ (laidOutValues (level + 1) values ++ lineAt level) := by
  match values with
  | [] => exact absurd rfl some
  | [value] =>
    have written := document_laidOut (level + 1) value
    simp [printedItems, writtenItems, laidOutValues, written, Spacing.behind]
  | value :: next :: more =>
    have written := document_laidOut (level + 1) value
    have others := items_laidOut level false (next :: more) (List.cons_ne_nil next more)
    rw [printedItems, writtenItems, others]
    simp [laidOutValues, written, Spacing.behind, leadingComma]

theorem members_laidOut (level : Nat) (first : Bool) (members : List (String × Value))
    (some : members ≠ []) :
    writtenMembers first (printedMembers laidOutSpacing level members) =
      leadingComma first ++ (laidOutMembers (level + 1) members ++ lineAt level) := by
  match members with
  | [] => exact absurd rfl some
  | [(key, value)] =>
    have written := document_laidOut (level + 1) value
    simp [printedMembers, writtenMembers, laidOutMembers, written, Spacing.behind,
      escapedPieces_written, stringText]
  | (key, value) :: next :: more =>
    have written := document_laidOut (level + 1) value
    have others := members_laidOut level false (next :: more) (List.cons_ne_nil next more)
    rw [printedMembers, writtenMembers, others]
    simp [laidOutMembers, written, Spacing.behind, leadingComma, escapedPieces_written,
      stringText]

end

/-- What is printed for a value is the written form of its document. -/
theorem renderLaidOut_eq (value : Value) :
    value.renderLaidOut.toList = (value.document laidOutSpacing 0).written := by
  rw [Value.renderLaidOut, String.toList_ofList, document_laidOut]

end GitHistory.Json
