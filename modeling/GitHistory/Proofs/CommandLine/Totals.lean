import GitHistory.Proofs.CommandLine.Output
import GitHistory.Proofs.Manager.Child

/-! Totals of what git printed. Nothing bounds the counts that are read, so their sum can leave the
range of counts; then there is no total, and the command that prints the totals crashes. -/
namespace GitHistory.CommandLine

open Executable (Plan diffArguments)
open FileStats (IsTotal)

/-- How a command that prints the totals of statistics ends: with a report that has both sums if they
are counts, and with a crash otherwise. -/
structure EndsWithTotals (reference : String) (against : Option String) (stats : FileStats)
    (outcome : Outcome) : Prop where
  printed_iff : (∃ report : StatsReport, outcome = .printed (.object report.members) ∧
      Reports report reference against stats) ↔
    stats.addedLines < UInt64.size ∧ stats.deletedLines < UInt64.size
  crashed_iff : outcome = .crashed .addition ↔
    UInt64.size ≤ stats.addedLines ∨ UInt64.size ≤ stats.deletedLines

section
variable {stats : FileStats} {reference : String} {against : Option String}

theorem statsOutput_overflow
    (large : UInt64.size ≤ stats.addedLines ∨ UInt64.size ≤ stats.deletedLines) :
    statsOutput reference against stats = .error .addition := by
  have additions := stats.isTotal_totalAdditions
  have deletions := stats.isTotal_totalDeletions
  rw [statsOutput]
  cases added : stats.totalAdditions with
  | error overflow => rfl
  | ok count =>
    have exactly := (additions.ok_iff count).mp added
    have small : count.toNat < UInt64.size := count.toNat_lt
    have overflow := deletions.overflow_iff.mpr (large.resolve_left (by omega))
    rw [overflow]
    rfl

variable {manager : Manager} {caller : Caller} {repo : String} {stage after : Stage}

theorem endsWithTotals_run
    (returned : manager.diffStats caller repo reference against stage = (.ok stats, after)) :
    EndsWithTotals reference against stats
      (.ofResult ((Command.stats reference against).run manager caller repo stage).1) := by
  rw [run_stats returned]
  by_cases large : UInt64.size ≤ stats.addedLines ∨ UInt64.size ≤ stats.deletedLines
  · have notSmall : ¬ (stats.addedLines < UInt64.size ∧ stats.deletedLines < UInt64.size) := by
      omega
    rw [statsOutput_overflow large]
    constructor
    · simp [Except.mapError, Outcome.ofResult, notSmall]
    · simp [Except.mapError, Outcome.ofResult, large]
  · have small : stats.addedLines < UInt64.size ∧ stats.deletedLines < UInt64.size := by omega
    obtain ⟨report, told, reports⟩ := exists_report small.1 small.2 reference against
    rw [told]
    constructor
    · exact ⟨fun _ => small, fun _ => ⟨report, rfl, reports⟩⟩
    · simp [Except.mapError, Outcome.ofResult, large]

end

/-- A text that is accepted and its statistics: their totals, and how the command ends that prints
them when this is the text that git printed. -/
theorem totals_told (raw : String) (stats : FileStats) :
    (Numstat.parseLines raw = .ok stats ∨ Numstat.parseFields raw = .ok stats →
      IsTotal stats.addedLines stats.totalAdditions ∧
      IsTotal stats.deletedLines stats.totalDeletions) ∧
    ∀ (host : Caller → Plan.Host Stage) program caller repo reference against words stage reply
      after, diffArguments repo reference against = .ok words →
      (host caller).run ⟨program, words⟩ stage = (.ok reply, after) → reply.success = true →
      reply.stdout = raw → Numstat.parseFields raw = .ok stats →
      EndsWithTotals reference against stats (.ofResult ((Command.stats reference against).run
        (Manager.executable program host) caller repo stage).1) := by
  constructor
  · intro _
    exact ⟨stats.isTotal_totalAdditions, stats.isTotal_totalDeletions⟩
  · rintro host program caller repo reference against words stage reply after passed replied
      succeeded rfl accepted
    exact endsWithTotals_run (diffStats_of_reply program repo passed replied succeeded accepted)

/-- The counts of two files that are too many together. -/
def crowded : FileStats := .ofList [("a", .text 18446744073709551615 0), ("b", .text 1 0)]

def crowdedLines : String := "18446744073709551615\t0\ta\n1\t0\tb\n"

def crowdedFields : String := "18446744073709551615\t0\ta\x001\t0\tb\x00"

theorem parseLines_crowded : Numstat.parseLines crowdedLines = .ok crowded := by
  decide +kernel

theorem parseFields_crowded : Numstat.parseFields crowdedFields = .ok crowded := by
  decide +kernel

/-- A stage on which the next command prints a text. -/
def printing (stdout : String) : Stage :=
  { Executable.bareStage with replies := [.output (.ok stdout)] }

theorem totals_told_crowded :
    Numstat.parseLines crowdedLines = .ok crowded ∧
    IsTotal crowded.addedLines crowded.totalAdditions ∧
    Numstat.parseFields crowdedFields = .ok crowded ∧
    EndsWithTotals "main" none crowded (.ofResult ((Command.stats "main" none).run
      (.executable "git" Stage.rehearsalHost) {} "/repo" (printing crowdedFields)).1) := by
  obtain ⟨totals, -⟩ := totals_told crowdedLines crowded
  obtain ⟨-, command⟩ := totals_told crowdedFields crowded
  have prepared : (printing crowdedFields).replies.head? = some (.output (.ok crowdedFields)) := rfl
  obtain ⟨after, replied⟩ := run_rehearsal prepared _
  exact ⟨parseLines_crowded, (totals (.inl parseLines_crowded)).1, parseFields_crowded,
    command Stage.rehearsalHost "git" {} "/repo" "main" none _ _ _ after rfl replied rfl rfl
      parseFields_crowded⟩

/-- Both forms are accepted, but there is no total, and the command crashes. -/
theorem crowded_overflows :
    Numstat.parseLines crowdedLines = .ok crowded ∧
    Numstat.parseFields crowdedFields = .ok crowded ∧
    crowded.addedLines = 18446744073709551616 ∧ crowded.totalAdditions = .error .addition ∧
    Outcome.ofResult ((Command.stats "main" none).run (.executable "git" Stage.rehearsalHost) {}
      "/repo" (printing crowdedFields)).1 = .crashed .addition := by
  have added : crowded.addedLines = 18446744073709551616 := by decide +kernel
  have large : UInt64.size ≤ crowded.addedLines := Nat.le_of_eq added.symm
  have prepared : (printing crowdedFields).replies.head? = some (.output (.ok crowdedFields)) := rfl
  obtain ⟨after, replied⟩ := run_rehearsal prepared _
  have command : EndsWithTotals "main" none crowded _ :=
    endsWithTotals_run (diffStats_of_reply "git" "/repo" rfl replied rfl parseFields_crowded)
  exact ⟨parseLines_crowded, parseFields_crowded, added,
    crowded.isTotal_totalAdditions.overflow_iff.mpr large, command.crashed_iff.mpr (.inl large)⟩

end GitHistory.CommandLine
