import GitHistory.FileStats.Json
import GitHistory.Proofs.FileStats.Entries
import GitHistory.Proofs.Json.Order
import Mathlib.Data.List.Permutation

/-! Statistics are read back from what is printed for them: each count for what it is, and the
entries in the order that they have already. -/
namespace GitHistory

open Json (Reader Document Found Spacing Value Numeral escapedPieces printedMembers)
open Json.Reader

variable (spacing : Spacing) (level : Nat)

namespace FileStat

theorem takes_kind_text : Takes kind (.string (escapedPieces "text")) .text := by
  intro gap rest delimited
  rw [kind, accept?_bind, takes_string .variant "text" gap rest delimited]
  rfl

theorem takes_kind_binary : Takes kind (.string (escapedPieces "binary")) .binary := by
  intro gap rest delimited
  rw [kind, accept?_bind, takes_string .variant "binary" gap rest delimited]
  rfl

theorem Members.steps_kind {document : Document} {kind : Kind}
    (takes : Takes FileStat.kind document kind) (depth : Nat) (others : List (String × Found)) :
    Steps (Members.step depth) ⟨none, others⟩ "kind" document ⟨some kind, others⟩ :=
  takes.steps (fun (given : Members) value => { given with kind := value }) (by simp [Members.step])

theorem Members.steps_count {name : String} (other : name ≠ "kind") (depth : Nat) (given : Members)
    (n : UInt64) :
    Steps (Members.step (depth + 1)) given name (.number (.ofCount n.toNat))
      { given with others := (name, .number (.count n)) :: given.others } := by
  intro behind ahead rest delimited
  have value := takes_anyValue (takes_found_number n) ⟨nofun, nofun⟩ depth
  simp [Members.step, other, accept?_colon, value ahead rest delimited]

/-- An object of members that lead to a kind and to what goes with it is read as a count. -/
theorem takes_object {depth : Nat} {kind : Kind} {others : List (String × Found)}
    {members : List (String × Value)} {stat : Except Json.Cause FileStat}
    (folds : Folds (Members.step (depth - 1)) {} (printedMembers spacing level members)
      ⟨some kind, others⟩)
    (means : ofMembers kind others.reverse = stat) :
    Takes (reader depth) ((Value.object members).document spacing level) stat := by
  intro gap rest _
  have read := folds.members Json.Gap.none rest
  simp only [Json.Gap.none_chars, List.nil_append] at read
  rw [reader, accept?_bind, accept?_valueToken]
  simp [Value.document, Document.written, read, means]

/-- The members that are printed, in their order. -/
def members : FileStat → List (String × Value)
  | .text additions deletions => [
      ("kind", .string "text"),
      ("additions", .number additions.toNat),
      ("deletions", .number deletions.toNat)]
  | .binary => [("kind", .string "binary")]

theorem toJson_eq (stat : FileStat) : stat.toJson = .object stat.members := by
  cases stat <;> rfl

theorem members_scalar (stat : FileStat) : ∀ member ∈ stat.members, member.2.isScalar = true := by
  cases stat <;> simp [members, Value.isScalar]

theorem members_once (stat : FileStat) : (stat.members.map Prod.fst).Nodup := by
  cases stat <;> simp [members]

def kindOf : FileStat → Kind
  | .text .. => .text
  | .binary => .binary

/-- What has been read when the members of some names have been, the last one first. -/
def Members.seen (stat : FileStat) (names : List String) : Members where
  kind := if "kind" ∈ names then some stat.kindOf else none
  others := (names.filter (· ≠ "kind")).map fun name =>
    (name, .number (.count (if name = "additions" then stat.additions else stat.deletions)))

theorem Members.steps_member (depth : Nat) {stat : FileStat} {name : String} {value : Value}
    {names : List String} (member : (name, value) ∈ stat.members) (fresh : name ∉ names) :
    Steps (Members.step (depth + 1)) (Members.seen stat names) name (value.document spacing level)
      (Members.seen stat (name :: names)) := by
  cases stat with
  | text additions deletions =>
    simp only [members, List.mem_cons, Prod.mk.injEq, List.not_mem_nil, or_false] at member
    rcases member with ⟨rfl, rfl⟩ | ⟨rfl, rfl⟩ | ⟨rfl, rfl⟩
    · simpa [seen, fresh, kindOf, Value.document] using
        steps_kind takes_kind_text (depth + 1) (seen _ names).others
    · simpa [seen, Value.document, FileStat.additions] using
        steps_count (by decide) depth (seen (.text additions deletions) names) additions
    · simpa [seen, Value.document, FileStat.deletions] using
        steps_count (by decide) depth (seen (.text additions deletions) names) deletions
  | binary =>
    obtain ⟨rfl, rfl⟩ : name = "kind" ∧ value = .string "binary" := by
      simpa [members] using member
    simpa [seen, fresh, kindOf, Value.document] using
      steps_kind takes_kind_binary (depth + 1) (seen _ names).others

/-- The two numbers of a count may have come in either order. -/
theorem ofMembers_seen {stat : FileStat} {names : List String}
    (perm : (stat.members.map Prod.fst).Perm names) :
    ofMembers stat.kindOf (Members.seen stat names.reverse).others.reverse = .ok stat := by
  cases stat with
  | text additions deletions =>
    have numbers : names.filter (· ≠ "kind") = ["additions", "deletions"] ∨
        names.filter (· ≠ "kind") = ["deletions", "additions"] :=
      List.pair_perm.mp (perm.filter (· ≠ "kind"))
    simp only [Members.seen, List.filter_reverse, List.map_reverse, List.reverse_reverse]
    rcases numbers with numbers | numbers <;> rw [numbers] <;> rfl
  | binary => rfl

/-- A count is read back from the members that are printed for it, in any order. -/
theorem takes_members (depth : Nat) {stat : FileStat} {moved : List (String × Value)}
    (perm : stat.members.Perm moved) :
    Takes (reader (depth + 2)) ((Value.object moved).document spacing level) (.ok stat) := by
  have folds := Folds.inAnyOrder (fun _ _ _ member fresh =>
    Members.steps_member spacing (level + 1) depth member fresh) stat.members_once perm
  have kind : "kind" ∈ (moved.map Prod.fst).reverse := by
    have printed : "kind" ∈ stat.members.map Prod.fst := by
      cases stat <;> simp [members]
    exact List.mem_reverse.mpr ((perm.map Prod.fst).mem_iff.mp printed)
  have last : Members.seen stat (moved.map Prod.fst).reverse =
      ⟨some stat.kindOf, (Members.seen stat (moved.map Prod.fst).reverse).others⟩ := by
    simp only [Members.seen, if_pos kind]
  rw [last] at folds
  exact takes_object spacing level folds (ofMembers_seen (perm.map Prod.fst))

theorem takes_reordered (depth : Nat) {stat : FileStat} {value : Value}
    (reordered : stat.toJson.Reordered value) :
    Takes (reader (depth + 2)) (value.document spacing level) (.ok stat) := by
  rw [toJson_eq] at reordered
  obtain ⟨moved, rfl, perm⟩ := reordered.of_scalars stat.members_scalar
  exact takes_members spacing level depth perm

theorem toSortedJson_reordered (stat : FileStat) : stat.toJson.Reordered stat.toSortedJson := by
  cases stat with
  | text additions deletions =>
    have moved : (members (.text additions deletions)).Perm [
        ("additions", .number additions.toNat), ("deletions", .number deletions.toNat),
        ("kind", .string "text")] := (List.perm_append_singleton _ _).symm
    exact .members moved
  | binary => exact .same _

end FileStat

namespace FileStats

theorem steps_reordered (stats : FileStats) (path : String) {stat : FileStat} {value : Value}
    (reordered : stat.toJson.Reordered value) :
    Steps step stats path (value.document spacing level) (stats.insert path stat) := by
  intro behind ahead rest delimited
  have taken :=
    FileStat.takes_reordered spacing level (depthLimit - 3) reordered ahead rest delimited
  simp only [step, accept?_bind, accept?_colon, Option.bind_some]
  rw [show depthLimit - 1 = depthLimit - 3 + 2 from rfl, taken]
  rfl

/-- What is printed for an entry, in some order of the members. -/
def EntryAlike (entry : String × FileStat) (member : String × Value) : Prop :=
  Value.Alike (entry.1, entry.2.toJson) member

theorem folds_reordered (stats : FileStats) {entries : List (String × FileStat)}
    {members : List (String × Value)} (alike : List.Forall₂ EntryAlike entries members) :
    Folds step stats (printedMembers spacing level members) (stats.insertAll entries) := by
  induction alike generalizing stats with
  | nil => exact .none
  | @cons entry member _ _ alike _ ih =>
    obtain ⟨path, stat⟩ := entry
    obtain ⟨name, value⟩ := member
    obtain ⟨rfl, reordered⟩ := alike
    exact .printed (steps_reordered spacing _ stats path reordered) (ih _)

/-- Statistics are read back from the members that are printed for them, whatever their order and
the order within each of them. -/
theorem takes_reordered {stats : FileStats} {value : Value}
    (reordered : stats.toJson.Reordered value) :
    Takes reader (value.document spacing level) stats := by
  obtain ⟨changed, moved, rfl, inside, perm⟩ := Value.Reordered.of_object reordered
  have alike : List.Forall₂ EntryAlike stats.entries changed := by
    rwa [List.forall₂_map_left_iff] at inside
  obtain ⟨entries, order, members⟩ : ∃ entries, stats.entries.Perm entries ∧
      List.Forall₂ EntryAlike entries moved := by
    have moves : Relation.Comp (List.Forall₂ EntryAlike) List.Perm stats.entries moved :=
      ⟨changed, alike, perm⟩
    rwa [List.forall₂_comp_perm_eq_perm_comp_forall₂] at moves
  intro gap rest _
  have read := (folds_reordered spacing level empty members).members Json.Gap.none rest
  simp only [Json.Gap.none_chars, List.nil_append] at read
  have same := ofList_perm order
  rw [ofList] at same
  rw [reader, accept?_bind, accept?_valueToken]
  simp [Value.document, Document.written, read, same]

theorem toSortedJson_reordered (stats : FileStats) :
    stats.toJson.Reordered stats.toSortedJson := by
  refine .of_alike ?_
  rw [List.forall₂_map_left_iff, List.forall₂_map_right_iff]
  exact List.forall₂_same.mpr fun entry _ => ⟨rfl, entry.2.toSortedJson_reordered⟩

/-- Statistics are read back from the object that is printed for them. -/
theorem takes_printed (stats : FileStats) :
    Takes reader (stats.toSortedJson.document spacing level) stats :=
  takes_reordered spacing level stats.toSortedJson_reordered

end FileStats

end GitHistory
