import GitHistory.Heap
import Mathlib.Data.List.Perm.Basic

/-! A heap holds what was put into it: entries rise and sink, but none is lost and none is made. -/
namespace GitHistory.Heap

variable {α : Type} {before : α → α → Bool}

theorem exchange_perm (entries : List α) (first second : Nat) :
    (exchange entries first second).Perm entries := by
  rw [exchange]
  split
  · rename_i atFirst atSecond foundFirst foundSecond
    obtain ⟨firstBound, rfl⟩ := List.getElem?_eq_some_iff.mp foundFirst
    obtain ⟨secondBound, rfl⟩ := List.getElem?_eq_some_iff.mp foundSecond
    exact List.set_set_perm firstBound secondBound
  · exact List.Perm.refl entries

theorem rise_perm (levels index : Nat) (entries : List α) :
    (rise before levels index entries).Perm entries := by
  induction levels generalizing index entries with
  | zero => exact List.Perm.refl entries
  | succ levels ih =>
    rw [rise]
    split
    · exact (ih _ _).trans (exchange_perm entries _ _)
    · exact List.Perm.refl entries

theorem sink_perm (levels index : Nat) (entries : List α) :
    (sink before levels index entries).Perm entries := by
  induction levels generalizing index entries with
  | zero => exact List.Perm.refl entries
  | succ levels ih =>
    rw [sink]
    -- Whichever side the entry may sink to, it changes places with one entry or stays.
    generalize (if isBefore before entries (2 * index + 1 + 1) (2 * index + 1) = true
      then 2 * index + 1 + 1 else 2 * index + 1) = below
    split
    · exact (ih _ _).trans (exchange_perm entries _ _)
    · exact List.Perm.refl entries

theorem insert_perm (entries : List α) (entry : α) :
    (insert before entries entry).Perm (entry :: entries) :=
  (rise_perm _ _ _).trans (List.perm_append_singleton entry entries)

/-- Taking an entry out leaves the others. -/
theorem pop?_perm {entries rest : List α} {first : α}
    (popped : pop? before entries = some (first, rest)) : (first :: rest).Perm entries := by
  cases entries with
  | nil => cases popped
  | cons top others =>
    rw [pop?] at popped
    split at popped
    · rename_i none
      cases popped
      rw [List.getLast?_eq_none_iff.mp none]
    · rename_i last found
      cases popped
      have whole := List.dropLast_append_getLast? last found
      have moved := (List.perm_append_singleton last others.dropLast).symm
      rw [whole] at moved
      exact ((sink_perm _ _ _).trans moved).cons first

theorem pop?_eq_none {entries : List α} (empty : pop? before entries = none) : entries = [] := by
  cases entries with
  | nil => rfl
  | cons top others =>
    rw [pop?] at empty
    split at empty <;> cases empty

theorem foldl_insert_perm (added entries : List α) :
    (added.foldl (insert before) entries).Perm (added ++ entries) := by
  induction added generalizing entries with
  | nil => exact List.Perm.refl entries
  | cons entry rest ih =>
    rw [List.foldl_cons, List.cons_append]
    have inserted : (rest ++ insert before entries entry).Perm (rest ++ entry :: entries) :=
      (insert_perm entries entry).append_left rest
    exact ((ih _).trans inserted).trans List.perm_middle

theorem ofList_perm (entries : List α) : (ofList before entries).Perm entries := by
  have all : (ofList before entries).Perm (entries ++ []) := foldl_insert_perm entries []
  rwa [List.append_nil] at all

end GitHistory.Heap
