import GitHistory.FileStats.Basic
import Mathlib.Algebra.GroupWithZero.Nat
import Mathlib.Data.List.Perm.Lattice

/-! Statistics that were recorded one count after the other: they hold the last count of each
path, and nothing else. -/
namespace GitHistory

variable {entries : List (String × FileStat)} {path : String} {stat : FileStat}

theorem lookup_cons_of_ne {key : String} (different : key ≠ path) (stat : FileStat)
    (entries : List (String × FileStat)) :
    ((path, stat) :: entries).lookup key = entries.lookup key := by
  rw [List.lookup_cons, beq_false_of_ne different]

theorem lookup_insertEntry (key path : String) (stat : FileStat)
    (entries : List (String × FileStat)) :
    (insertEntry path stat entries).lookup key =
      if key = path then some stat else entries.lookup key := by
  induction entries with
  | nil =>
    by_cases same : key = path
    · simp [insertEntry, same]
    · simp [insertEntry, lookup_cons_of_ne same, same]
  | cons head rest ih =>
    obtain ⟨first, value⟩ := head
    rw [insertEntry]
    by_cases same : key = path
    · subst same
      rw [if_pos rfl]
      split
      · exact List.lookup_cons_self
      · split
        · exact List.lookup_cons_self
        · rename_i different
          rw [lookup_cons_of_ne different]
          exact ih.trans (if_pos rfl)
    · rw [if_neg same] at ih ⊢
      split
      · rw [lookup_cons_of_ne same]
      · split
        · rename_i equal
          rw [lookup_cons_of_ne same, lookup_cons_of_ne (equal ▸ same)]
        · rw [List.lookup_cons, List.lookup_cons, ih]

theorem mem_iff_lookup (sorted : Ascending entries) :
    (path, stat) ∈ entries ↔ entries.lookup path = some stat := by
  induction entries with
  | nil => simp
  | cons head rest ih =>
    obtain ⟨first, value⟩ := head
    obtain ⟨above, ordered⟩ := List.pairwise_cons.mp sorted
    rw [List.mem_cons, ih ordered]
    by_cases same : path = first
    · subst same
      have absent : rest.lookup path ≠ some stat := by
        intro found
        exact PathBefore.irrefl path (above _ ((ih ordered).mpr found))
      simp [absent, eq_comm]
    · simp [lookup_cons_of_ne same, same]

namespace FileStats

theorem mem_entries_iff (stats : FileStats) :
    (path, stat) ∈ stats.entries ↔ stats.get? path = some stat :=
  mem_iff_lookup stats.ascending

theorem get?_insert (key path : String) (stat : FileStat) (stats : FileStats) :
    (stats.insert path stat).get? key = if key = path then some stat else stats.get? key :=
  lookup_insertEntry key path stat stats.entries

theorem get?_insertAll (key : String) (entries : List (String × FileStat)) (stats : FileStats) :
    (stats.insertAll entries).get? key = (entries.reverse.lookup key).or (stats.get? key) := by
  induction entries generalizing stats with
  | nil => rfl
  | cons head rest ih =>
    obtain ⟨path, stat⟩ := head
    have later : (stats.insertAll ((path, stat) :: rest)).get? key =
        ((stats.insert path stat).insertAll rest).get? key := rfl
    rw [later, ih, get?_insert, List.reverse_cons, List.lookup_append]
    by_cases same : key = path
    · subst same
      cases rest.reverse.lookup key <;> simp
    · cases rest.reverse.lookup key <;> simp [lookup_cons_of_ne same, same]

/-- The last count of a path is the one that stands. -/
theorem get?_ofList (key : String) (entries : List (String × FileStat)) :
    (ofList entries).get? key = entries.reverse.lookup key := by
  rw [ofList, get?_insertAll]
  exact Option.or_none

end FileStats

/-! Counts that stand and counts that later ones replace. -/

/-- Whether a list has an entry of a path. -/
def hasPath (path : String) (entries : List (String × FileStat)) : Bool :=
  entries.any fun entry => entry.1 = path

/-- The last entries of each path. -/
def lasting : List (String × FileStat) → List (String × FileStat)
  | [] => []
  | entry :: rest => if hasPath entry.1 rest then lasting rest else entry :: lasting rest

/-- The entries that are followed by another one of the same path. -/
def replaced : List (String × FileStat) → List (String × FileStat)
  | [] => []
  | entry :: rest => if hasPath entry.1 rest then entry :: replaced rest else replaced rest

theorem hasPath_eq_false_iff :
    hasPath path entries = false ↔ ∀ entry ∈ entries, entry.1 ≠ path := by
  simp [hasPath]

theorem lookup_reverse_eq_none_iff :
    entries.reverse.lookup path = none ↔ hasPath path entries = false := by
  rw [List.lookup_eq_none_iff, hasPath_eq_false_iff]
  constructor
  · intro absent entry member same
    exact bne_iff_ne.mp (absent entry (List.mem_reverse.mpr member)) same.symm
  · intro absent entry member
    exact bne_iff_ne.mpr (absent entry (List.mem_reverse.mp member)).symm

theorem mem_lasting_iff :
    (path, stat) ∈ lasting entries ↔ entries.reverse.lookup path = some stat := by
  induction entries with
  | nil => simp [lasting]
  | cons head rest ih =>
    obtain ⟨first, value⟩ := head
    rw [lasting, List.reverse_cons, List.lookup_append]
    by_cases again : hasPath first rest = true
    · rw [if_pos again, ih]
      by_cases same : path = first
      · subst same
        cases found : rest.reverse.lookup path with
        | none => simp [lookup_reverse_eq_none_iff.mp found] at again
        | some last => simp
      · cases rest.reverse.lookup path <;> simp [lookup_cons_of_ne same]
    · rw [if_neg again, List.mem_cons, ih]
      by_cases same : path = first
      · subst same
        have absent := lookup_reverse_eq_none_iff.mpr (Bool.eq_false_iff.mpr again)
        simp [absent, eq_comm]
      · cases rest.reverse.lookup path <;> simp [lookup_cons_of_ne same, same]

/-- Whether a count is that of the last of some items that are about a path. -/
def IsLast {α : Type} (path : α → String) (stat : α → FileStat) (items : List α) (key : String)
    (count : FileStat) : Prop :=
  ∃ before item after, items = before ++ item :: after ∧ path item = key ∧ stat item = count ∧
    ∀ later ∈ after, path later ≠ key

theorem lookup_reverse_map_iff {α : Type} {path : α → String} {stat : α → FileStat}
    {items : List α} {key : String} {count : FileStat} :
    (items.map fun item => (path item, stat item)).reverse.lookup key = some count ↔
      IsLast path stat items key count := by
  rw [List.lookup_eq_some_iff]
  constructor
  · rintro ⟨later, earlier, listed, others⟩
    rw [List.reverse_eq_iff, List.reverse_append, List.reverse_cons, List.append_assoc,
      List.singleton_append] at listed
    obtain ⟨before, rest, rfl, -, ends⟩ := List.map_eq_append_iff.mp listed
    obtain ⟨item, after, rfl, same, behind⟩ := List.map_eq_cons_iff.mp ends
    refine ⟨before, item, after, rfl, congrArg Prod.fst same, congrArg Prod.snd same, ?_⟩
    intro next member named
    have listed : (path next, stat next) ∈ later.reverse :=
      behind ▸ List.mem_map_of_mem member
    exact bne_iff_ne.mp (others _ (List.mem_reverse.mp listed)) named.symm
  · rintro ⟨before, item, after, rfl, rfl, rfl, others⟩
    refine ⟨(after.map fun item => (path item, stat item)).reverse,
      (before.map fun item => (path item, stat item)).reverse, by simp, ?_⟩
    intro entry member
    obtain ⟨later, inside, rfl⟩ := List.mem_map.mp (List.mem_reverse.mp member)
    exact bne_iff_ne.mpr (others later inside).symm

theorem hasPath_of_mem_lasting (member : (path, stat) ∈ lasting entries) :
    hasPath path entries = true := by
  apply Bool.of_not_eq_false
  intro absent
  have missing := lookup_reverse_eq_none_iff.mpr absent
  rw [mem_lasting_iff.mp member] at missing
  cases missing

theorem nodup_lasting (entries : List (String × FileStat)) : (lasting entries).Nodup := by
  induction entries with
  | nil => exact List.nodup_nil
  | cons head rest ih =>
    rw [lasting]
    by_cases again : hasPath head.1 rest = true
    · rwa [if_pos again]
    · rw [if_neg again]
      refine List.nodup_cons.mpr ⟨?_, ih⟩
      intro member
      exact again (hasPath_of_mem_lasting member)

/-- Every entry lasts or is replaced. -/
theorem lasting_append_replaced (entries : List (String × FileStat)) :
    (lasting entries ++ replaced entries).Perm entries := by
  induction entries with
  | nil => exact List.Perm.refl []
  | cons head rest ih =>
    rw [lasting, replaced]
    by_cases again : hasPath head.1 rest = true
    · rw [if_pos again, if_pos again]
      exact List.perm_middle.trans (ih.cons head)
    · rw [if_neg again, if_neg again]
      exact ih.cons head

/-- Where each path comes once, no entry is followed by another one of its path. -/
theorem lasting_eq_self (once : (entries.map Prod.fst).Nodup) : lasting entries = entries := by
  induction entries with
  | nil => rfl
  | cons head rest ih =>
    obtain ⟨fresh, once⟩ := List.nodup_cons.mp once
    have absent : hasPath head.1 rest = false :=
      hasPath_eq_false_iff.mpr fun entry member same => fresh (List.mem_map.mpr ⟨entry, member, same⟩)
    rw [lasting, absent, ih once]
    rfl

theorem FileStats.eq_of_entries {first second : FileStats} (same : first.entries = second.entries) :
    first = second := by
  cases first
  cases second
  cases same
  rfl

theorem nodup_of_ascending (sorted : Ascending entries) : entries.Nodup := by
  refine sorted.imp ?_
  rintro first second before rfl
  exact PathBefore.irrefl _ before

theorem nodup_paths_of_ascending (sorted : Ascending entries) :
    (entries.map Prod.fst).Nodup := by
  refine List.pairwise_map.mpr (sorted.imp ?_)
  rintro first second before same
  exact PathBefore.irrefl _ (same ▸ before)

/-- The statistics of a list of counts are those that last. -/
theorem FileStats.entries_ofList (entries : List (String × FileStat)) :
    (FileStats.ofList entries).entries.Perm (lasting entries) := by
  apply (List.perm_ext_iff_of_nodup (nodup_of_ascending (FileStats.ofList entries).ascending)
    (nodup_lasting entries)).mpr
  rintro ⟨path, stat⟩
  rw [FileStats.mem_entries_iff, FileStats.get?_ofList, mem_lasting_iff]

theorem FileStats.eq_of_perm {first second : FileStats}
    (perm : first.entries.Perm second.entries) : first = second :=
  eq_of_entries (perm.eq_of_pairwise (fun _ _ _ _ before behind =>
    (PathBefore.irrefl _ (before.trans behind)).elim) first.ascending second.ascending)

/-- The order in which the entries are recorded makes no difference. -/
theorem FileStats.ofList_perm {stats : FileStats} {entries : List (String × FileStat)}
    (perm : stats.entries.Perm entries) : ofList entries = stats := by
  have once : (entries.map Prod.fst).Nodup :=
    (perm.map Prod.fst).nodup_iff.mp (nodup_paths_of_ascending stats.ascending)
  have lasts := entries_ofList entries
  rw [lasting_eq_self once] at lasts
  exact eq_of_perm (lasts.trans perm.symm)

/-- Statistics are what they have for each path. -/
theorem FileStats.eq_of_get? {first second : FileStats}
    (same : ∀ path, first.get? path = second.get? path) : first = second := by
  apply eq_of_perm
  apply (List.perm_ext_iff_of_nodup (nodup_of_ascending first.ascending)
    (nodup_of_ascending second.ascending)).mpr
  rintro ⟨path, stat⟩
  rw [mem_entries_iff, mem_entries_iff, same]

/-- What is recorded over some statistics stands, and the rest of them stays. -/
theorem FileStats.get?_insertAll_entries (key : String) (added stats : FileStats) :
    (stats.insertAll added.entries).get? key = (added.get? key).or (stats.get? key) := by
  rw [get?_insertAll, ← get?_ofList, ofList_perm (List.Perm.refl _)]

theorem FileStats.ofList_append (first second : List (String × FileStat)) :
    ofList (first ++ second) = (ofList first).insertAll (ofList second).entries := by
  apply eq_of_get?
  intro path
  rw [get?_insertAll_entries, get?_ofList, get?_ofList, get?_ofList, List.reverse_append,
    List.lookup_append]

/-- What the statistics of a list of counts leave out of a sum is what was replaced. -/
theorem FileStats.sum_ofList (size : FileStat → Nat) (entries : List (String × FileStat)) :
    ((FileStats.ofList entries).entries.map fun entry => size entry.2).sum +
      ((replaced entries).map fun entry => size entry.2).sum =
        (entries.map fun entry => size entry.2).sum := by
  have kept := ((FileStats.entries_ofList entries).map fun entry => size entry.2).sum_nat
  have all := ((lasting_append_replaced entries).map fun entry => size entry.2).sum_nat
  rw [List.map_append, List.sum_append] at all
  rw [kept, all]

end GitHistory
