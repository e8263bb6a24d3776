import Mathlib.Data.List.TakeWhile
import GitHistory.Text.Blank

/-! What trimming drops: all blanks at the ends of a text, and nothing that stands between characters
that are kept. -/
namespace GitHistory.Text

variable {drop : Char → Bool}

theorem trimEnd_append {ending : List Char} (dropped : ∀ c ∈ ending, drop c = true)
    (text : List Char) : trimEnd drop (text ++ ending) = trimEnd drop text := by
  have behind : ∀ c ∈ ending.reverse, drop c = true := fun c member =>
    dropped c (List.mem_reverse.mp member)
  rw [trimEnd, List.reverse_append, List.dropWhile_append_of_pos behind, trimEnd]

theorem trimEnd_concat {last : Char} (kept : drop last = false) (text : List Char) :
    trimEnd drop (text ++ [last]) = text ++ [last] := by
  simp [trimEnd, kept]

/-- Behind a character that is kept, trimming goes on as if nothing stood before it. -/
theorem trimEnd_behind {last : Char} (kept : drop last = false) (text ending : List Char) :
    trimEnd drop (text ++ last :: ending) = text ++ last :: trimEnd drop ending := by
  rw [List.append_cons, trimEnd, List.reverse_append, List.dropWhile_append]
  split
  · rename_i nothing
    have gone : trimEnd drop ending = [] := by
      rw [trimEnd, List.isEmpty_iff.mp nothing, List.reverse_nil]
    rw [gone, ← trimEnd, trimEnd_concat kept]
  · rw [List.reverse_append, List.reverse_reverse, ← trimEnd, List.append_assoc,
      List.singleton_append]

theorem trimEnd_prefix (drop : Char → Bool) (text : List Char) : trimEnd drop text <+: text := by
  have kept := List.reverse_prefix.mpr (List.dropWhile_suffix drop (l := text.reverse))
  rwa [List.reverse_reverse] at kept

/-- What trimming drops from the end is all of the kind to drop. -/
theorem exists_trimEnd (drop : Char → Bool) (text : List Char) :
    ∃ ending, text = trimEnd drop text ++ ending ∧ ∀ c ∈ ending, drop c = true := by
  refine ⟨(text.reverse.takeWhile drop).reverse, ?_, ?_⟩
  · have parts := congrArg List.reverse
      (List.takeWhile_append_dropWhile (p := drop) (l := text.reverse))
    rw [List.reverse_append, List.reverse_reverse] at parts
    exact parts.symm
  · intro c member
    exact List.all_eq_true.mp List.all_takeWhile c (List.mem_reverse.mp member)

/-- A text is what is left of it, with blanks around that. -/
theorem exists_trim (text : List Char) :
    ∃ lead trail, text = lead ++ (trim text ++ trail) ∧ (∀ c ∈ lead, isBlank c = true) ∧
      ∀ c ∈ trail, isBlank c = true := by
  obtain ⟨trail, parted, blank⟩ := exists_trimEnd isBlank (text.dropWhile isBlank)
  refine ⟨text.takeWhile isBlank, trail, ?_, ?_, blank⟩
  · rw [trim, ← parted, List.takeWhile_append_dropWhile]
  · exact List.all_eq_true.mp List.all_takeWhile

/-- Blanks around a text are dropped. -/
theorem trim_append {lead trail : List Char} (before : ∀ c ∈ lead, isBlank c = true)
    (behind : ∀ c ∈ trail, isBlank c = true) (text : List Char) :
    trim (lead ++ (text ++ trail)) = trim text := by
  rw [trim, List.dropWhile_append_of_pos before, List.dropWhile_append, trim]
  split
  · rename_i nothing
    have gone : trail.dropWhile isBlank = [] := List.dropWhile_eq_nil_iff.mpr behind
    rw [gone, List.isEmpty_iff.mp nothing]
  · exact trimEnd_append behind _

theorem trim_infix (text : List Char) : trim text <:+: text := by
  obtain ⟨lead, trail, parted, -, -⟩ := exists_trim text
  exact ⟨lead, trail, by rw [List.append_assoc, ← parted]⟩

end GitHistory.Text
