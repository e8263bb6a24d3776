import GitHistory.Proofs.Json.Taking

/-! The compact form of a value as a document: the layout that has no white space at all. -/
namespace GitHistory.Json

/-- No white space anywhere. -/
def tightSpacing : Spacing where
  line _ := Gap.none
  afterColon := Gap.none

@[simp] theorem tightSpacing_line (level : Nat) : tightSpacing.line level = Gap.none := rfl

@[simp] theorem tightSpacing_afterColon : tightSpacing.afterColon = Gap.none := rfl

@[simp] theorem tightSpacing_behind (level : Nat) (last : Bool) :
    tightSpacing.behind level last = Gap.none := by
  cases last <;> rfl

mutual

theorem document_compact (level : Nat) (value : Value) :
    (value.document tightSpacing level).written = value.compact := by
  match value with
  | .null => rfl
  | .boolean b => rfl
  | .number n => simp [Value.document, Document.written, Value.compact]
  | .string text =>
    simp [Value.document, Document.written, Value.compact, escapedPieces_written, stringText]
  | .list values =>
    cases values with
    | nil => rfl
    | cons value rest =>
      have items := items_compact level true (value :: rest) (List.cons_ne_nil value rest)
      simp [Value.document, Document.written, Value.compact, items, leadingComma]
  | .object members =>
    cases members with
    | nil => rfl
    | cons member rest =>
      have members := members_compact level true (member :: rest) (List.cons_ne_nil member rest)
      simp [Value.document, Document.written, Value.compact, members, leadingComma]

theorem items_compact (level : Nat) (first : Bool) (values : List Value) (some : values ≠ []) :
    writtenItems first (printedItems tightSpacing level values) =
      leadingComma first ++ compactValues values := by
  match values with
  | [] => exact absurd rfl some
  | [value] =>
    have written := document_compact (level + 1) value
    simp [printedItems, writtenItems, compactValues, written]
  | value :: next :: more =>
    have written := document_compact (level + 1) value
    have others := items_compact level false (next :: more) (List.cons_ne_nil next more)
    rw [printedItems, writtenItems, others]
    simp [compactValues, written, leadingComma]

theorem members_compact (level : Nat) (first : Bool) (members : List (String × Value))
    (some : members ≠ []) :
    writtenMembers first (printedMembers tightSpacing level members) =
      leadingComma first ++ compactMembers members := by
  match members with
  | [] => exact absurd rfl some
  | [(key, value)] =>
    have written := document_compact (level + 1) value
    simp [printedMembers, writtenMembers, compactMembers, written, escapedPieces_written,
      stringText]
  | (key, value) :: next :: more =>
    have written := document_compact (level + 1) value
    have others := members_compact level false (next :: more) (List.cons_ne_nil next more)
    rw [printedMembers, writtenMembers, others]
    simp [compactMembers, written, leadingComma, escapedPieces_written, stringText]

end

namespace Reader

/-- The compact form of a value is read as what its document is taken for. -/
theorem Takes.parse_compact {α : Type} {read : Reader α} {value : Value} {result : α}
    (takes : Takes read (value.document tightSpacing 0) result) :
    read.parse value.render.toList = .ok result := by
  have parsed := takes.parse Gap.none
  rw [Value.render, String.toList_ofList]
  rwa [document_compact, Gap.none_chars, List.append_nil] at parsed

end Reader

end GitHistory.Json
