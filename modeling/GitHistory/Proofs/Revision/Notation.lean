import GitHistory.Proofs.Revision.Range
import GitHistory.Proofs.Text.Lines

/-! Git's notation for a range can be read in one way only. No revision has two dots in a row, so
the first two that are found stand behind the boundary, and where there are none there is no
boundary. -/
namespace GitHistory

/-- What git allows in no name of a reference. -/
def twoDots : List Char := ['.', '.']

/-- A revision without two dots in a row. -/
def Undotted (revision : String) : Prop := Text.contains twoDots revision.toList = false

instance (revision : String) : Decidable (Undotted revision) :=
  inferInstanceAs (Decidable (_ = false))

/-- What stands between a boundary and a tip. -/
def rangeMark : List Char := '^' :: twoDots

theorem not_undotted_of_mark {front behind : List Char} {revision : String}
    (marked : revision.toList = front ++ (rangeMark ++ behind)) : ¬ Undotted revision := by
  have found : twoDots <:+: revision.toList := ⟨front ++ ['^'], behind, by simp [marked, rangeMark]⟩
  rw [Undotted, Text.contains_iff.mpr found]
  exact Bool.noConfusion

/-- A text that ends where the mark starts again takes two dots of it along, or is empty. -/
theorem eq_nil_of_mark {more behind rest : List Char}
    (plain : Text.contains twoDots more = false)
    (same : rangeMark ++ behind = more ++ (rangeMark ++ rest)) : more = [] := by
  match more with
  | [] => rfl
  | [_] => simp [rangeMark, twoDots] at same
  | [_, _] => simp [rangeMark, twoDots] at same
  | caret :: first :: second :: others =>
    obtain ⟨rfl, rfl, rfl, -⟩ : '^' = caret ∧ '.' = first ∧ '.' = second ∧
        behind = others ++ (rangeMark ++ rest) := by
      simpa [rangeMark, twoDots] using same
    have found : twoDots <:+: '^' :: '.' :: '.' :: others := ⟨['^'], others, rfl⟩
    rw [Text.contains_iff.mpr found] at plain
    cases plain

/-- The first mark decides where the boundary ends. -/
theorem eq_of_mark {front other behind rest : List Char}
    (plain : Text.contains twoDots front = false) (otherPlain : Text.contains twoDots other = false)
    (same : front ++ (rangeMark ++ behind) = other ++ (rangeMark ++ rest)) :
    front = other ∧ behind = rest := by
  rcases List.append_eq_append_iff.mp same with ⟨more, longer, left⟩ | ⟨more, longer, left⟩
  · have part : more <:+: other := ⟨front, [], by rw [longer, List.append_nil]⟩
    obtain rfl := eq_nil_of_mark (Text.contains_of_part part otherPlain) left
    rw [List.append_nil] at longer
    exact ⟨longer.symm, List.append_cancel_left left⟩
  · have part : more <:+: front := ⟨other, [], by rw [longer, List.append_nil]⟩
    obtain rfl := eq_nil_of_mark (Text.contains_of_part part plain) left
    rw [List.append_nil] at longer
    exact ⟨longer, (List.append_cancel_left left).symm⟩

namespace RevisionRange

variable {range other : RevisionRange}

theorem text_of_unbounded (unbounded : range.boundary? = none) : range.text = range.tip := by
  rw [text, unbounded]

theorem toList_text_of_bounded {oldest : String} (bounded : range.boundary? = some oldest) :
    range.text.toList = oldest.toList ++ (rangeMark ++ range.tip.toList) := by
  rw [text, bounded]
  dsimp only
  rw [String.toList_append, String.toList_append, List.append_assoc]
  rfl

theorem tip_mem_revisions (range : RevisionRange) : range.tip ∈ range.revisions := by
  simp [revisions]

theorem boundary_mem_revisions {oldest : String} (bounded : range.boundary? = some oldest) :
    oldest ∈ range.revisions := by
  simp [revisions, bounded]

/-- A text with a boundary is never one without. -/
theorem text_ne_of_bounded {oldest : String} (bounded : range.boundary? = some oldest)
    (unbounded : other.boundary? = none) (plain : Undotted other.tip) :
    range.text ≠ other.text := by
  intro same
  rw [text_of_unbounded unbounded] at same
  have marked := toList_text_of_bounded bounded
  rw [same] at marked
  exact not_undotted_of_mark marked plain

theorem text_eq_iff (plain : ∀ revision ∈ range.revisions, Undotted revision)
    (otherPlain : ∀ revision ∈ other.revisions, Undotted revision) :
    range.text = other.text ↔ range.boundary? = other.boundary? ∧ range.tip = other.tip := by
  constructor
  · intro same
    cases bounded : range.boundary? with
    | none =>
      cases otherBounded : other.boundary? with
      | none =>
        rw [text_of_unbounded bounded, text_of_unbounded otherBounded] at same
        exact ⟨rfl, same⟩
      | some oldest =>
        have tipPlain := plain _ (tip_mem_revisions range)
        exact absurd same.symm (text_ne_of_bounded otherBounded bounded tipPlain)
    | some oldest =>
      cases otherBounded : other.boundary? with
      | none =>
        have tipPlain := otherPlain _ (tip_mem_revisions other)
        exact absurd same (text_ne_of_bounded bounded otherBounded tipPlain)
      | some first =>
        have chars := congrArg String.toList same
        rw [toList_text_of_bounded bounded, toList_text_of_bounded otherBounded] at chars
        obtain ⟨front, behind⟩ := eq_of_mark (plain _ (boundary_mem_revisions bounded))
          (otherPlain _ (boundary_mem_revisions otherBounded)) chars
        rw [String.toList_inj.mp front, String.toList_inj.mp behind]
        exact ⟨rfl, rfl⟩
  · rintro ⟨boundary, tip⟩
    rw [text, text, boundary, tip]

end RevisionRange

/-- A range that passes is one argument. -/
theorem rangeArguments_eq_ok {branchRef : String} {oldest newest : Option String}
    {arguments : List String} (passed : rangeArguments branchRef oldest newest = .ok arguments) :
    arguments = [(RevisionRange.resolve branchRef oldest newest).text] := by
  rw [rangeArguments_eq] at passed
  split at passed
  · cases passed
  · exact (Except.ok.inj passed).symm

/-- Two ranges that pass are the same argument only if they have the same boundary, or none, and the
same tip. -/
theorem rangeArguments_unambiguous {branchRef otherBranch : String}
    {oldest newest otherOldest otherNewest : Option String} {arguments others : List String}
    (passed : rangeArguments branchRef oldest newest = .ok arguments)
    (otherPassed : rangeArguments otherBranch otherOldest otherNewest = .ok others)
    (plain : ∀ revision ∈ usedRevisions branchRef oldest newest, Undotted revision)
    (otherPlain : ∀ revision ∈ usedRevisions otherBranch otherOldest otherNewest,
      Undotted revision) :
    arguments.length = 1 ∧ others.length = 1 ∧ (arguments = others ↔
      (RevisionRange.resolve branchRef oldest newest).boundary? =
          (RevisionRange.resolve otherBranch otherOldest otherNewest).boundary? ∧
        (RevisionRange.resolve branchRef oldest newest).tip =
          (RevisionRange.resolve otherBranch otherOldest otherNewest).tip) := by
  rw [← revisions_resolve] at plain otherPlain
  obtain rfl := rangeArguments_eq_ok passed
  obtain rfl := rangeArguments_eq_ok otherPassed
  refine ⟨rfl, rfl, ?_⟩
  rw [List.singleton_inj]
  exact RevisionRange.text_eq_iff plain otherPlain

/-- Carets and dots beside the mark do not move it. -/
theorem rangeArguments_unambiguous_carets :
    rangeArguments "main" (some "v1") (some ".^x") = .ok ["v1^...^x"] ∧
    rangeArguments "main" (some "v1^.") (some "^x") = .ok ["v1^.^..^x"] ∧
    (∀ revision ∈ usedRevisions "main" (some "v1") (some ".^x"), Undotted revision) ∧
    (∀ revision ∈ usedRevisions "main" (some "v1^.") (some "^x"), Undotted revision) ∧
    ["v1^...^x"] ≠ ["v1^.^..^x"] := by
  have passed : rangeArguments "main" (some "v1") (some ".^x") = .ok ["v1^...^x"] := rfl
  have otherPassed : rangeArguments "main" (some "v1^.") (some "^x") = .ok ["v1^.^..^x"] := rfl
  have plain : ∀ revision ∈ usedRevisions "main" (some "v1") (some ".^x"), Undotted revision := by
    decide
  have otherPlain : ∀ revision ∈ usedRevisions "main" (some "v1^.") (some "^x"),
      Undotted revision := by decide
  obtain ⟨-, -, same⟩ := rangeArguments_unambiguous passed otherPassed plain otherPlain
  refine ⟨passed, otherPassed, plain, otherPlain, ?_⟩
  intro equal
  exact absurd (same.mp equal).2 (by decide)

end GitHistory
