import GitHistory.Proofs.Commit.Printed
import GitHistory.Proofs.FileStats.Printed
import GitHistory.Proofs.Request

/-! What is written down as compact JSON is read back as what it was: commits, statistics, single
counts and requests, with the members of every object in any order. -/
namespace GitHistory

open Json (Value tightSpacing)
open Json.Reader

/-- A way to read that gets a result back from the compact form of a value, whatever the order of
the members of its objects. -/
def RoundTrips {α : Type} (parse : String → Except Json.Failure α) (printed : Value)
    (result : α) : Prop :=
  ∀ value, printed.Reordered value → parse value.render = .ok result

theorem Commit.roundTrips (commit : Commit) :
    RoundTrips (fun text => Commit.reader.parse text.toList) commit.toJson commit :=
  fun _ reordered => (takes_reordered_commit tightSpacing 0 reordered).parse_compact

theorem Request.roundTrips (request : Request) :
    RoundTrips Request.ofJson request.toJson request :=
  fun _ reordered => (Request.takes_reordered tightSpacing 0 reordered).parse_compact

theorem FileStats.roundTrips (stats : FileStats) :
    RoundTrips FileStats.parse stats.toJson stats :=
  fun _ reordered => (FileStats.takes_reordered tightSpacing 0 reordered).parse_compact

theorem FileStat.roundTrips (stat : FileStat) : RoundTrips FileStat.parse stat.toJson stat := by
  intro value reordered
  refine Takes.parse_compact ?_
  intro gap rest delimited
  have taken := FileStat.takes_reordered tightSpacing 0 (depthLimit - 2) reordered gap rest delimited
  rw [show depthLimit - 2 + 2 = depthLimit from rfl] at taken
  rw [accept?_bind, taken]
  rfl

/-- Everything that is written as compact JSON is read back: as it is written, and with the members
of any object moved. -/
theorem round_trips :
    (∀ commit : Commit,
      RoundTrips (fun text => Commit.reader.parse text.toList) commit.toJson commit) ∧
    (∀ stat : FileStat, RoundTrips FileStat.parse stat.toJson stat) ∧
    (∀ stats : FileStats, RoundTrips FileStats.parse stats.toJson stats) ∧
    ∀ request : Request, RoundTrips Request.ofJson request.toJson request :=
  ⟨Commit.roundTrips, FileStat.roundTrips, FileStats.roundTrips, Request.roundTrips⟩

/-- Statistics with the later path first and the kind of its counts last. -/
theorem round_trips_moved :
    FileStats.parse (Value.object [
      ("b", .object [("kind", .string "binary")]),
      ("a", .object [
        ("deletions", .number 0),
        ("additions", .number 18446744073709551615),
        ("kind", .string "text")])]).render =
      .ok (FileStats.ofList [("a", .text 18446744073709551615 0), ("b", .binary)]) := by
  refine round_trips.2.2.1 _ _ ?_
  have inside : (FileStat.text 18446744073709551615 0).toJson.Reordered (.object [
      ("deletions", .number 0),
      ("additions", .number 18446744073709551615),
      ("kind", .string "text")]) := .members (List.reverse_perm _).symm
  exact .trans (.member [] "a" _ inside) (.members (.swap _ _ []))

end GitHistory
