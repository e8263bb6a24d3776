import Mathlib.Data.List.TakeWhile
import GitHistory.Process.Command
import GitHistory.Proofs.Text.Lines

/-! What git complains about. Of a complaint about a revision, whatever lines stand around it, what is
reported is the text up to the first quote: the whole revision just if it holds none. -/
namespace GitHistory

open Text (ended contains)

/-- A line that git prints beside a complaint; it does not tell of rejected credentials. -/
structure OtherLine where
  chars : List Char
  noLineEnd : '\n' ∉ chars
  accepted : contains rejectedCredentials.toList chars = false

/-- Git's complaint about a revision, with the lines before and behind it. The first line that
complains is this one, and git has no revision with a blank or a control character in its name. -/
structure Complaint where
  revision : List Char
  before : List OtherLine
  behind : List OtherLine
  named : revision ≠ []
  solid : ∀ c ∈ revision, ' ' < c
  first : ∀ line ∈ before, complainsOfRevision line.chars = false

namespace Complaint

/-- What stands before the first quote. -/
def lead : List Char := "fatal: ambiguous argument ".toList

/-- What stands behind the last quote, but for the full stop. -/
def tail : List Char := ": unknown revision or path not in the working tree".toList

section
variable (complaint : Complaint)

/-- The line that complains. -/
def line : List Char := lead ++ '\'' :: (complaint.revision ++ '\'' :: (tail ++ ['.']))

/-- What git prints. -/
def text : List Char :=
  (complaint.before.map OtherLine.chars).flatMap ended ++
    (complaint.line ++ complaint.behind.flatMap fun line => '\n' :: line.chars)

/-- What is taken for the revision: the text between the first two quotes, or the whole line if there
is none between them. -/
def reported : List Char :=
  let front := complaint.revision.takeWhile (· != '\'')
  if front.isEmpty then complaint.line else front

end

variable {complaint : Complaint}

theorem not_mem_revision (complaint : Complaint) {c : Char} (low : c ≤ ' ') :
    c ∉ complaint.revision := by
  intro member
  exact absurd (complaint.solid c member) (Char.not_lt.mpr low)

theorem line_clean : '\n' ∉ complaint.line := by
  have clean := not_mem_revision complaint (c := '\n') (by decide)
  have outside : '\n' ∉ lead ∧ '\n' ∉ tail := by decide
  simp [line, clean, outside]

/-- The line as all but its full stop, which is neither blank nor a carriage return. -/
theorem exists_line_eq (complaint : Complaint) : ∃ front, complaint.line = front ++ ['.'] :=
  ⟨lead ++ '\'' :: (complaint.revision ++ '\'' :: tail), by simp [line]⟩

theorem dropCarriageReturn_line : Text.dropCarriageReturn complaint.line = complaint.line := by
  obtain ⟨front, laid⟩ := exists_line_eq complaint
  apply Text.dropCarriageReturn_eq_self
  rw [laid, List.getLast?_concat]
  decide

theorem complains_line : complainsOfRevision complaint.line = true := by
  apply List.any_eq_true.mpr
  refine ⟨"ambiguous argument", by decide, ?_⟩
  apply Text.contains_iff.mpr
  refine ⟨"fatal: ".toList, ' ' :: '\'' :: (complaint.revision ++ '\'' :: (tail ++ ['.'])), ?_⟩
  rfl

/-! Credentials. -/

/-- No word of the line starts as the last one of the text about credentials does, and the revision
is part of one word. -/
theorem line_accepted : contains rejectedCredentials.toList complaint.line = false := by
  have word : [' ', 'f'] <:+: rejectedCredentials.toList :=
    ⟨"Authentication".toList, "ailed".toList, rfl⟩
  have skipped := Text.contains_append_of_not_mem
    (not_mem_revision complaint (c := ' ') (by decide)) ['f'] ('\'' :: (tail ++ ['.']))
  have absent : contains [' ', 'f'] complaint.line = false := by
    have led : contains [' ', 'f'] complaint.line =
        contains [' ', 'f'] (complaint.revision ++ '\'' :: (tail ++ ['.'])) := rfl
    rw [led, skipped]
    rfl
  apply Bool.eq_false_iff.mpr
  intro present
  have inside := Text.contains_iff.mpr (word.trans (Text.contains_iff.mp present))
  rw [absent] at inside
  cases inside

theorem flatMap_behind (others : List OtherLine) :
    (others.flatMap fun line => '\n' :: line.chars) ++ ['\n'] =
      '\n' :: (others.map OtherLine.chars).flatMap ended := by
  induction others with
  | nil => rfl
  | cons line others ih =>
    rw [List.flatMap_cons, List.append_assoc, ih]
    simp [ended]

theorem text_accepted : contains rejectedCredentials.toList complaint.text = false := by
  have lineEnd : '\n' ∉ rejectedCredentials.toList := by decide
  have accepted : ∀ others : List OtherLine,
      (others.map OtherLine.chars).any (contains rejectedCredentials.toList) = false := by
    intro others
    simp [OtherLine.accepted]
  -- with one more line end the lines behind are ended lines too
  have whole : complaint.text <:+: complaint.text ++ ['\n'] := (List.prefix_append _ _).isInfix
  refine Text.contains_of_part whole ?_
  rw [text, List.append_assoc, List.append_assoc, flatMap_behind,
    Text.contains_flatMap_ended lineEnd, Text.contains_append_cons lineEnd, accepted, line_accepted]
  have rest := Text.contains_flatMap_ended lineEnd (complaint.behind.map OtherLine.chars) []
  rw [List.append_nil, accepted] at rest
  rw [rest]
  rfl

/-! The line that complains. -/

theorem complainsOfRevision_of_part {part whole : List Char} (inside : part <:+: whole)
    (silent : complainsOfRevision whole = false) : complainsOfRevision part = false := by
  rw [complainsOfRevision, List.any_eq_false] at silent ⊢
  intro mark member complains
  apply silent mark member
  exact Text.contains_iff.mpr ((Text.contains_iff.mp complains).trans inside)

/-- Behind the line that complains, trimming leaves nothing or a line end and more. -/
theorem exists_trimEnd_behind (others : List OtherLine) :
    ∃ rest, Text.trimEnd Text.isBlank (others.flatMap fun line => '\n' :: line.chars) = rest ∧
      (rest = [] ∨ ∃ more, rest = '\n' :: more) := by
  refine ⟨_, rfl, ?_⟩
  have front := Text.trimEnd_prefix Text.isBlank (others.flatMap fun line => '\n' :: line.chars)
  cases others with
  | nil => exact .inl (List.prefix_nil.mp front)
  | cons line others =>
    rw [List.flatMap_cons, List.cons_append] at front
    rcases List.prefix_cons_iff.mp front with nothing | ⟨more, same, -⟩
    · exact .inl nothing
    · exact .inr ⟨more, same⟩

/-- Trimming leaves the line that complains as it is, with whole lines before it that are parts of the
lines there were. -/
theorem exists_trim_text (complaint : Complaint) : ∃ (others : List (List Char)) (rest : List Char),
    Text.trim complaint.text = others.flatMap ended ++ (complaint.line ++ rest) ∧
      (rest = [] ∨ ∃ more, rest = '\n' :: more) ∧
      ∀ part ∈ others, ∃ line ∈ complaint.before, part <:+ line.chars := by
  obtain ⟨front, laid⟩ := exists_line_eq complaint
  obtain ⟨rest, trimmed, shape⟩ := exists_trimEnd_behind complaint.behind
  have solid : (complaint.line ++ complaint.behind.flatMap fun line => '\n' :: line.chars).dropWhile
      Text.isBlank = complaint.line ++ complaint.behind.flatMap fun line => '\n' :: line.chars := rfl
  obtain ⟨others, left, suffixes⟩ := Text.dropWhile_flatMap_ended (by decide) solid
    (complaint.before.map OtherLine.chars)
  refine ⟨others, rest, ?_, shape, ?_⟩
  -- the full stop is kept, so the end is trimmed as if nothing stood before it
  · rw [Text.trim, text, left, laid, List.append_assoc, List.singleton_append, ← List.append_assoc,
      Text.trimEnd_behind (by decide), trimmed]
    simp
  · intro part member
    obtain ⟨whole, inside, suffix⟩ := suffixes part member
    obtain ⟨line, listed, rfl⟩ := List.mem_map.mp inside
    exact ⟨line, listed, suffix⟩

theorem exists_lines_line (complaint : Complaint) {rest : List Char}
    (shape : rest = [] ∨ ∃ more, rest = '\n' :: more) : ∃ others,
      Text.lines (complaint.line ++ rest) = complaint.line :: others := by
  rcases shape with rfl | ⟨more, rfl⟩
  · refine ⟨[], ?_⟩
    rw [List.append_nil]
    exact Text.lines_of_not_mem line_clean (by simp [line])
  · refine ⟨Text.lines more, ?_⟩
    rw [Text.lines_append_cons line_clean, dropCarriageReturn_line]

/-- Of the lines that are left, the complaint is the first that complains. -/
theorem find?_lines (complaint : Complaint) :
    (Text.lines (Text.trim complaint.text)).find? complainsOfRevision = some complaint.line := by
  obtain ⟨others, rest, trimmed, shape, parts⟩ := exists_trim_text complaint
  obtain ⟨behind, listed⟩ := exists_lines_line complaint shape
  have clean : ∀ part ∈ others, '\n' ∉ part := by
    intro part member lineEnd
    obtain ⟨line, -, suffix⟩ := parts part member
    exact line.noLineEnd (suffix.subset lineEnd)
  have silent : ∀ part ∈ others.map Text.dropCarriageReturn, ¬ complainsOfRevision part = true := by
    intro part member
    obtain ⟨whole, inside, rfl⟩ := List.mem_map.mp member
    obtain ⟨line, earlier, suffix⟩ := parts whole inside
    have contained := (Text.dropCarriageReturn_prefix whole).isInfix.trans suffix.isInfix
    rw [complainsOfRevision_of_part contained (complaint.first line earlier)]
    exact Bool.false_ne_true
  rw [trimmed, Text.lines_flatMap_ended clean, listed, List.find?_append,
    List.find?_eq_none.mpr silent, List.find?_cons_of_pos complains_line]
  rfl

/-! The revision. -/

theorem getElem?_splitOn_line (complaint : Complaint) : (Text.splitOn '\'' complaint.line)[1]? =
    some (complaint.revision.takeWhile (· != '\'')) := by
  rw [line, Text.splitOn_append (by decide), List.getElem?_cons_succ, ← List.head?_eq_getElem?,
    Text.head?_splitOn, List.takeWhile_append]
  split
  · rename_i whole
    have same := (List.takeWhile_prefix (· != '\'')).eq_of_length whole
    simp [same]
  · rfl

theorem unknownRevision?_text (complaint : Complaint) :
    unknownRevision? (Text.trim complaint.text) = some (String.ofList complaint.reported) := by
  rw [unknownRevision?, find?_lines]
  dsimp only [Option.bind_eq_bind, Option.bind_some]
  rw [getElem?_splitOn_line]
  rfl

theorem reported_eq_iff (complaint : Complaint) :
    complaint.reported = complaint.revision ↔ '\'' ∉ complaint.revision := by
  rw [reported]
  constructor
  · intro same quoted
    split at same
    · have longer := congrArg List.length same
      simp [line] at longer
      omega
    · rw [← same] at quoted
      have passed := List.mem_takeWhile_imp quoted
      exact absurd passed (by decide)
  · intro unquoted
    have front : complaint.revision.takeWhile (· != '\'') = complaint.revision := by
      apply List.takeWhile_eq_self_iff.mpr
      intro c member
      apply bne_iff_ne.mpr
      rintro rfl
      exact unquoted member
    have named : complaint.revision.isEmpty = false := by simpa using complaint.named
    rw [front, named]
    rfl

/-- A complaint about a revision. Whatever the command, its output and its exit code, the error is that
what the complaint is taken to be about was not found; this is the revision just if it holds no quote. -/
theorem classifyFailure_complaint (complaint : Complaint) (command stdout : String)
    (code : Option Int) (success : Bool) :
    classifyFailure command ⟨stdout, String.ofList complaint.text, code, success⟩ =
      .notFound (String.ofList complaint.reported) ∧
    (complaint.reported = complaint.revision ↔ '\'' ∉ complaint.revision) := by
  refine ⟨?_, reported_eq_iff complaint⟩
  have accepted := Text.contains_of_part (Text.trim_infix complaint.text) text_accepted
  simp only [classifyFailure, String.toList_ofList, accepted, unknownRevision?_text]
  rfl

/-- A revision that git takes, with a quote in the middle. -/
def quoted : Complaint where
  revision := "it's".toList
  before := []
  behind := []
  named := by decide
  solid := by simp
  first := fun _ none => absurd none List.not_mem_nil

/-- What is behind the quote is lost. -/
theorem classifyFailure_cuts_revision :
    classifyFailure "git log" (.failed 128 (String.ofList quoted.text)) = .notFound "it" ∧
      String.ofList quoted.revision = "it's" := by
  decide +kernel

end Complaint

end GitHistory
