import GitHistory.Proofs.Commit.Decoded
import GitHistory.Proofs.Executable.Reply

/-! When decoding comes to no commit, and when a lookup that git succeeds at finds nothing. A blank
output is told so, and so is a separator that no fragment stands before. -/
namespace GitHistory

/-- A text that describes something is decoded to commits or refused. -/
theorem decodeLog_of_something {raw : String} (something : ¬ DescribesNothing raw.toList)
    (checkoutPath : String) :
    (∃ commit more, decodeLog raw checkoutPath = .ok (commit :: more)) ∨
      ∃ reason, decodeLog raw checkoutPath = .error (.decode reason) := by
  rcases decodeLog_ok_or_decode raw checkoutPath with ⟨commits, decoded⟩ | refused
  · cases commits with
    | nil => exact (something (decodeLog_eq_nil_iff.mp decoded)).elim
    | cons commit more => exact .inl ⟨commit, more, decoded⟩
  · exact .inr refused

namespace Executable

variable {σ : Type}

theorem firstCommit_of_something {output : String} (something : ¬ DescribesNothing output.toList)
    (root reference : String) :
    (∃ commit, firstCommit root reference output = .ok commit) ∨
      ∃ reason, firstCommit root reference output = .error (.decode reason) := by
  rcases decodeLog_of_something something root with ⟨commit, more, decoded⟩ | ⟨reason, refused⟩
  · exact .inl ⟨commit, by rw [firstCommit, decoded]; rfl⟩
  · exact .inr ⟨reason, by rw [firstCommit, refused]; rfl⟩

theorem firstCommit_eq_notFound_iff {root reference output : String} :
    firstCommit root reference output = .error (.notFound reference) ↔
      DescribesNothing output.toList := by
  constructor
  · intro outcome
    refine Classical.byContradiction fun something => ?_
    rcases firstCommit_of_something something root reference with ⟨commit, found⟩ |
      ⟨reason, refused⟩
    · cases found.symm.trans outcome
    · cases refused.symm.trans outcome
  · exact fun nothing => firstCommit_of_nothing (nothing.decodeLog_eq root)

/-- Decoding comes to no commit just when the text describes nothing, and any other text is decoded
to commits or refused. So a lookup that git succeeds at finds nothing just when the output
describes nothing, and any other output gives a commit or is refused. -/
theorem nothing_found_iff (host : Plan.Host σ) (program root : String) :
    (∀ raw checkoutPath, decodeLog raw checkoutPath = .ok [] ↔ DescribesNothing raw.toList) ∧
    (∀ raw checkoutPath, ¬ DescribesNothing raw.toList →
      (∃ commit more, decodeLog raw checkoutPath = .ok (commit :: more)) ∨
        ∃ reason, decodeLog raw checkoutPath = .error (.decode reason)) ∧
    (∀ reference, refusal? [reference] = none →
      ∃ words, showArguments root reference = .ok words ∧
        ∀ state reply after, host.run ⟨program, words⟩ state = (.ok reply, after) →
          reply.success = true →
          (((commitByReference program root reference).execute host state).1 =
              .error (.notFound reference) ↔ DescribesNothing reply.stdout.toList) ∧
          (¬ DescribesNothing reply.stdout.toList →
            (∃ commit, ((commitByReference program root reference).execute host state).1 =
              .ok commit) ∨
            ∃ reason, ((commitByReference program root reference).execute host state).1 =
              .error (.decode reason))) := by
  refine ⟨fun _ _ => decodeLog_eq_nil_iff, fun _ checkoutPath something =>
    decodeLog_of_something something checkoutPath, fun reference passes => ?_⟩
  obtain ⟨words, passed, decided⟩ := commitByReference_decided host program root passes
  refine ⟨words, passed, fun state reply after replied succeeded => ?_⟩
  rw [decided.succeeded state reply after replied succeeded]
  exact ⟨firstCommit_eq_notFound_iff, fun something =>
    firstCommit_of_something something root reference⟩

/-- White space that JSON does not know keeps a separator from standing alone. -/
theorem nothing_found_iff_spaced :
    decodeLog "\u00a0\n" "/repo" = .ok [] ∧
    ¬ DescribesNothing "\u00a0,".toList ∧
    (∃ reason, decodeLog "\u00a0," "/repo" = .error (.decode reason)) ∧
    refusal? ["v1"] = none ∧
    ((commitByReference "git" "/repo" "v1").execute (.answering (.ok "\u00a0\n")) ()).1 =
      .error (.notFound "v1") := by
  obtain ⟨described, refused, lookup⟩ :=
    nothing_found_iff (.answering (.ok "\u00a0\n")) "git" "/repo"
  have blank : DescribesNothing "\u00a0\n".toList := .blank (by decide)
  have something : ¬ DescribesNothing "\u00a0,".toList := fun nothing =>
    absurd ((described "\u00a0," "/repo").mpr nothing) (by decide +kernel)
  have passes : refusal? ["v1"] = none := by decide
  have stopped : (decodeLog "\u00a0," "/repo").isOk = false := by decide +kernel
  have malformed : ∃ reason, decodeLog "\u00a0," "/repo" = .error (.decode reason) := by
    rcases refused "\u00a0," "/repo" something with ⟨commit, more, decoded⟩ | malformed
    · rw [decoded] at stopped
      cases stopped
    · exact malformed
  obtain ⟨_, -, found⟩ := lookup "v1" passes
  exact ⟨(described _ _).mpr blank, something, malformed, passes,
    (found () _ () rfl rfl).1.mpr blank⟩

/-- An output that is not blank, and yet nothing was found. -/
theorem lone_separator_found_nothing :
    ¬ (decodeLog "," "/repo" = .ok [] ↔ Text.isBlankText ",".toList = true) ∧
    decodeLog "," "/repo" = .ok [] ∧
    ((commitByReference "git" "/repo" "v1").execute (.answering (.ok ",")) ()).1 =
      .error (.notFound "v1") := by
  have solid : Text.isBlankText ",".toList = false := by decide
  have nothing : decodeLog "," "/repo" = .ok [] := by decide +kernel
  refine ⟨?_, nothing, by decide +kernel⟩
  rw [solid]
  simp [nothing]

end Executable

end GitHistory
