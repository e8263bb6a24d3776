import GitHistory.Proofs.Text.Fields
import GitHistory.Proofs.Text.Trimmed

/-! Lines that a text was put together from, and texts that hold a pattern. A pattern without a line
end stands in one line or in none. -/
namespace GitHistory.Text

/-! Lines. -/

/-- A line with its end. -/
def ended (line : List Char) : List Char := line ++ ['\n']

theorem flatMap_ended_cons (line : List Char) (all : List (List Char)) (rest : List Char) :
    (line :: all).flatMap ended ++ rest = line ++ '\n' :: (all.flatMap ended ++ rest) := by
  simp [ended]

/-- A line end ends the line before it, whatever comes behind. -/
theorem lines_append_cons {line : List Char} (clean : '\n' ∉ line) (rest : List Char) :
    lines (line ++ '\n' :: rest) = dropCarriageReturn line :: lines rest := by
  rw [lines, lines, splitOn_append clean, List.reverse_cons]
  cases turned : (splitOn '\n' rest).reverse with
  | nil => exact absurd (List.reverse_eq_nil_iff.mp turned) (splitOn_ne_nil '\n' rest)
  | cons last others =>
    dsimp only [List.cons_append]
    rw [List.reverse_append, List.map_append]
    split <;> rfl

theorem lines_flatMap_ended {all : List (List Char)} (clean : ∀ line ∈ all, '\n' ∉ line)
    (rest : List Char) :
    lines (all.flatMap ended ++ rest) = all.map dropCarriageReturn ++ lines rest := by
  induction all with
  | nil => rfl
  | cons line others ih =>
    have cleanOthers : ∀ line ∈ others, '\n' ∉ line := fun line member =>
      clean line (List.mem_cons_of_mem _ member)
    rw [flatMap_ended_cons, lines_append_cons (clean line List.mem_cons_self), ih cleanOthers,
      List.map_cons, List.cons_append]

/-- A text without a line end is a line. -/
theorem lines_of_not_mem {text : List Char} (clean : '\n' ∉ text) (some : text ≠ []) :
    lines text = [text] := by
  have solid : text.isEmpty = false := by simpa using some
  rw [lines, splitOn_of_not_mem clean]
  simp [solid]

theorem dropCarriageReturn_prefix (line : List Char) : dropCarriageReturn line <+: line := by
  rw [dropCarriageReturn]
  split
  · rename_i rest turned
    rw [List.reverse_eq_iff.mp turned, List.reverse_cons]
    exact List.prefix_append _ _
  · exact List.prefix_refl line

theorem dropCarriageReturn_eq_self {line : List Char} (other : line.getLast? ≠ some '\r') :
    dropCarriageReturn line = line := by
  rw [dropCarriageReturn]
  split
  · rename_i rest turned
    rw [List.reverse_eq_iff.mp turned, List.reverse_cons, List.getLast?_concat] at other
    exact absurd rfl other
  · rfl

theorem dropCarriageReturn_concat (line : List Char) :
    dropCarriageReturn (line ++ ['\r']) = line := by
  simp [dropCarriageReturn]

/-- A text and its lines: each but the last has a line end behind it, which takes one carriage
return before it along, and the last is not empty. -/
inductive HasLines : List Char → List (List Char) → Prop where
  | none : HasLines [] []
  | last {line : List Char} (clean : '\n' ∉ line) (some : line ≠ []) : HasLines line [line]
  | ended {line rest : List Char} {others : List (List Char)} (clean : '\n' ∉ line)
      (kept : line.getLast? ≠ some '\r') (more : HasLines rest others) :
      HasLines (line ++ '\n' :: rest) (line :: others)
  | returned {line rest : List Char} {others : List (List Char)} (clean : '\n' ∉ line)
      (more : HasLines rest others) : HasLines (line ++ '\r' :: '\n' :: rest) (line :: others)

theorem HasLines.lines_eq {text : List Char} {all : List (List Char)} (has : HasLines text all) :
    lines text = all := by
  induction has with
  | none => rfl
  | last clean some => exact lines_of_not_mem clean some
  | ended clean kept _ ih => rw [lines_append_cons clean, dropCarriageReturn_eq_self kept, ih]
  | @returned line rest others clean _ ih =>
    have cleanReturn : '\n' ∉ line ++ ['\r'] := by simpa using clean
    rw [List.append_cons, lines_append_cons cleanReturn, dropCarriageReturn_concat, ih]

theorem hasLines_lines (text : List Char) : HasLines text (lines text) := by
  induction size : text.length using Nat.strongRecOn generalizing text with
  | _ count ih =>
    subst size
    by_cases ends : '\n' ∈ text
    · obtain ⟨line, rest, rfl, clean⟩ := List.eq_append_cons_of_mem ends
      have more := ih rest.length (by simp; omega) rest rfl
      by_cases kept : line.getLast? = some '\r'
      · obtain ⟨front, rfl⟩ := List.getLast?_eq_some_iff.mp kept
        have cleanFront : '\n' ∉ front := fun member => clean (List.mem_append_left _ member)
        rw [lines_append_cons clean, dropCarriageReturn_concat, List.append_assoc]
        exact .returned cleanFront more
      · rw [lines_append_cons clean, dropCarriageReturn_eq_self kept]
        exact .ended clean kept more
    · by_cases empty : text = []
      · subst empty
        exact .none
      · rw [lines_of_not_mem ends empty]
        exact .last ends empty

/-- Every text has just the lines that it is cut into. -/
theorem hasLines_iff {text : List Char} {all : List (List Char)} :
    HasLines text all ↔ all = lines text := by
  constructor
  · exact fun has => has.lines_eq.symm
  · rintro rfl
    exact hasLines_lines text

/-- Of whole lines before a text, what is dropped from the front leaves whole lines. -/
theorem dropWhile_flatMap_ended {drop : Char → Bool} (lineEnd : drop '\n' = true)
    {rest : List Char} (kept : rest.dropWhile drop = rest) (all : List (List Char)) :
    ∃ others : List (List Char),
      (all.flatMap ended ++ rest).dropWhile drop = others.flatMap ended ++ rest ∧
      ∀ line ∈ others, ∃ whole ∈ all, line <:+ whole := by
  induction all with
  | nil => exact ⟨[], by simp [kept], fun line member => absurd member List.not_mem_nil⟩
  | cons line all ih =>
    obtain ⟨others, left, suffixes⟩ := ih
    rw [flatMap_ended_cons, List.dropWhile_append]
    split
    -- the whole line is dropped, so its end is too
    · refine ⟨others, ?_, ?_⟩
      · rw [List.dropWhile_cons_of_pos lineEnd, left]
      · intro part member
        obtain ⟨whole, inside, suffix⟩ := suffixes part member
        exact ⟨whole, List.mem_cons_of_mem _ inside, suffix⟩
    · refine ⟨line.dropWhile drop :: all, (flatMap_ended_cons _ _ _).symm, ?_⟩
      intro part member
      rcases List.mem_cons.mp member with rfl | inside
      · exact ⟨line, List.mem_cons_self, List.dropWhile_suffix drop⟩
      · exact ⟨part, List.mem_cons_of_mem _ inside, List.suffix_refl part⟩

/-! Patterns. -/

theorem contains_iff {pattern text : List Char} :
    contains pattern text = true ↔ pattern <:+: text := by
  induction text with
  | nil => simp [contains]
  | cons c rest ih => simp [contains, ih, List.infix_cons_iff]

theorem contains_of_part {pattern part text : List Char} (inside : part <:+: text)
    (absent : contains pattern text = false) : contains pattern part = false := by
  apply Bool.eq_false_iff.mpr
  intro present
  rw [contains_iff.mpr ((contains_iff.mp present).trans inside)] at absent
  cases absent

theorem isPrefixOf_append_cons {pattern : List Char} {c : Char} (clean : c ∉ pattern)
    (front rest : List Char) :
    pattern.isPrefixOf (front ++ c :: rest) = pattern.isPrefixOf front := by
  induction front generalizing pattern with
  | nil =>
    cases pattern with
    | nil => rfl
    | cons first others =>
      have other : (first == c) = false := by
        apply beq_false_of_ne
        rintro rfl
        exact clean List.mem_cons_self
      simp [List.isPrefixOf, other]
  | cons head tail ih =>
    cases pattern with
    | nil => rfl
    | cons first others =>
      have cleanOthers : c ∉ others := fun member => clean (List.mem_cons_of_mem _ member)
      simp [List.isPrefixOf, ih cleanOthers]

/-- A pattern does not go across a character that it does not hold. -/
theorem contains_append_cons {pattern : List Char} {c : Char} (clean : c ∉ pattern)
    (front rest : List Char) :
    contains pattern (front ++ c :: rest) = (contains pattern front || contains pattern rest) := by
  induction front with
  | nil =>
    have first := isPrefixOf_append_cons clean [] rest
    rw [List.nil_append] at first
    rw [List.nil_append, contains, contains, first]
    cases pattern <;> rfl
  | cons head tail ih =>
    have first := isPrefixOf_append_cons clean (head :: tail) rest
    rw [List.cons_append] at first ⊢
    rw [contains, first, ih, contains, Bool.or_assoc]

/-- A pattern without a line end stands in one of the lines or nowhere. -/
theorem contains_flatMap_ended {pattern : List Char} (clean : '\n' ∉ pattern)
    (all : List (List Char)) (rest : List Char) :
    contains pattern (all.flatMap ended ++ rest) =
      (all.any (contains pattern) || contains pattern rest) := by
  induction all with
  | nil => rfl
  | cons line all ih =>
    rw [flatMap_ended_cons, contains_append_cons clean, ih, List.any_cons, Bool.or_assoc]

/-- What holds no `c` is skipped in looking for a pattern that starts with it. -/
theorem contains_append_of_not_mem {c : Char} {front : List Char} (clean : c ∉ front)
    (pattern rest : List Char) :
    contains (c :: pattern) (front ++ rest) = contains (c :: pattern) rest := by
  induction front with
  | nil => rfl
  | cons head tail ih =>
    obtain ⟨different, cleanTail⟩ : c ≠ head ∧ c ∉ tail := by simpa using clean
    have other : (c == head) = false := beq_false_of_ne different
    rw [List.cons_append, contains, List.isPrefixOf, other, ih cleanTail]
    rfl

end GitHistory.Text
