import GitHistory.Revision.Range

/-! Which revisions a range uses, and that none of them gets past the check as an option. -/
namespace GitHistory

/-- The oldest revision if one is given, and the newest or else the branch. -/
def usedRevisions (branchRef : String) (oldest newest : Option String) : List String :=
  (nonEmpty? oldest).toList ++ [(nonEmpty? newest).getD branchRef]

theorem looksLikeOption_append {text : String} (other : String)
    (passes : looksLikeOption text = false) (plain : looksLikeOption other = false) :
    looksLikeOption (text ++ other) = false := by
  simp only [looksLikeOption, String.toList_append] at passes plain ⊢
  cases chars : text.toList with
  | nil => exact plain
  | cons c rest => simpa [chars] using passes

theorem checkRevision_eq_ok {revision : String} (passes : looksLikeOption revision = false) :
    checkRevision revision = .ok revision := by
  simp [checkRevision, passes]

theorem checkRevision_eq_error {revision : String} (option : looksLikeOption revision = true) :
    checkRevision revision = .error (.invalidReference revision) := by
  simp [checkRevision, option]

/-- The check fails for the first revision that looks like an option. -/
theorem forM_checkRevision (revisions : List String) :
    (revisions.forM fun revision => (checkRevision revision).map fun _ => ()) =
      match revisions.find? looksLikeOption with
      | some revision => .error (.invalidReference revision)
      | none => .ok () := by
  induction revisions with
  | nil => rfl
  | cons revision rest ih =>
    by_cases option : looksLikeOption revision = true
    · rw [List.find?_cons_of_pos option, List.forM_eq_forM, List.forM_cons,
        checkRevision_eq_error option]
      rfl
    · rw [List.find?_cons_of_neg option, ← ih, List.forM_eq_forM, List.forM_cons,
        checkRevision_eq_ok (Bool.eq_false_iff.mpr option)]
      rfl

theorem revisions_resolve (branchRef : String) (oldest newest : Option String) :
    (RevisionRange.resolve branchRef oldest newest).revisions =
      usedRevisions branchRef oldest newest := by
  rw [RevisionRange.resolve, usedRevisions]
  cases nonEmpty? oldest <;> cases nonEmpty? newest <;> rfl

theorem rangeArguments_eq (branchRef : String) (oldest newest : Option String) :
    rangeArguments branchRef oldest newest =
      match (usedRevisions branchRef oldest newest).find? looksLikeOption with
      | some revision => .error (.invalidReference revision)
      | none => .ok [(RevisionRange.resolve branchRef oldest newest).text] := by
  rw [rangeArguments, RevisionRange.arguments, RevisionRange.check, forM_checkRevision,
    revisions_resolve]
  cases (usedRevisions branchRef oldest newest).find? looksLikeOption <;> rfl

/-- Checked revisions make a range that does not look like an option. -/
theorem looksLikeOption_text {range : RevisionRange}
    (passes : ∀ revision ∈ range.revisions, looksLikeOption revision = false) :
    looksLikeOption range.text = false := by
  rw [RevisionRange.revisions] at passes
  rw [RevisionRange.text]
  cases bounded : range.boundary? with
  | none => exact passes range.tip (by simp)
  | some oldest =>
    have start := passes oldest (by simp [bounded])
    dsimp only
    rw [String.append_assoc]
    exact looksLikeOption_append _ start (looksLikeOption_append _ (by decide) (passes _ (by simp)))

end GitHistory
