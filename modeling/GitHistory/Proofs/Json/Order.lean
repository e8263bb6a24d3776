import GitHistory.Proofs.Json.Compact
import Mathlib.Data.List.Perm.Basic

/-! The order of the members of an object. Two values that differ in nothing else have, up to such
an order, the same members, and a reader that takes each member for what it is gets to the same
state in every order. -/
namespace GitHistory.Json

/-- Values that differ in the order of the members of their objects, at any depth. -/
inductive Value.Reordered : Value → Value → Prop where
  | same (value : Value) : Reordered value value
  | members {members moved : List (String × Value)} (perm : members.Perm moved) :
      Reordered (.object members) (.object moved)
  | member (before : List (String × Value)) (key : String) {value changed : Value}
      (after : List (String × Value)) (inside : Reordered value changed) :
      Reordered (.object (before ++ (key, value) :: after))
        (.object (before ++ (key, changed) :: after))
  | item (before : List Value) {value changed : Value} (after : List Value)
      (inside : Reordered value changed) :
      Reordered (.list (before ++ value :: after)) (.list (before ++ changed :: after))
  | trans {first second third : Value} (start : Reordered first second)
      (further : Reordered second third) : Reordered first third

namespace Value

/-- Whether a value has nothing inside. -/
def isScalar : Value → Bool
  | .list _ => false
  | .object _ => false
  | _ => true

/-- Members of one name, whose values differ in the order of members. -/
def Alike (first second : String × Value) : Prop :=
  first.1 = second.1 ∧ first.2.Reordered second.2

theorem Alike.refl (member : String × Value) : Alike member member := ⟨rfl, .same _⟩

theorem Alike.trans {first second third : String × Value} (start : Alike first second)
    (further : Alike second third) : Alike first third :=
  ⟨start.1.trans further.1, start.2.trans further.2⟩

theorem alike_trans {first second third : List (String × Value)}
    (start : List.Forall₂ Alike first second) (further : List.Forall₂ Alike second third) :
    List.Forall₂ Alike first third := by
  induction start generalizing third with
  | nil => exact further
  | cons head _ ih =>
    cases further with
    | cons next rest => exact .cons (head.trans next) (ih rest)

namespace Reordered

theorem eq_of_isScalar {value other : Value} (reordered : value.Reordered other)
    (scalar : value.isScalar = true) : other = value := by
  induction reordered with
  | same value => rfl
  | members perm => cases scalar
  | member before key after inside ih => cases scalar
  | item before after inside ih => cases scalar
  | trans start further first second =>
    obtain rfl := first scalar
    exact second scalar

/-- An object has its members reordered inside, and then moved. -/
theorem of_object {members : List (String × Value)} {other : Value}
    (reordered : (Value.object members).Reordered other) :
    ∃ changed moved, other = .object moved ∧ List.Forall₂ Alike members changed ∧
      changed.Perm moved := by
  have unchanged : ∀ listed, List.Forall₂ Alike listed listed := fun listed =>
    List.forall₂_same.mpr fun member _ => Alike.refl member
  suffices each : ∀ value : Value, value.Reordered other → ∀ listed, value = .object listed →
      ∃ changed moved, other = .object moved ∧ List.Forall₂ Alike listed changed ∧
        changed.Perm moved from each _ reordered members rfl
  clear reordered
  intro value reordered
  induction reordered with
  | same value =>
    rintro listed rfl
    exact ⟨listed, listed, rfl, unchanged listed, .refl listed⟩
  | members perm =>
    rintro listed ⟨⟩
    exact ⟨_, _, rfl, unchanged _, perm⟩
  | member before key after inside ih =>
    rintro listed ⟨⟩
    refine ⟨_, _, rfl, ?_, .refl _⟩
    exact List.rel_append (unchanged before) (.cons ⟨rfl, inside⟩ (unchanged after))
  | item before after inside ih => rintro listed ⟨⟩
  | trans start further first second =>
    intro listed object
    obtain ⟨changed, moved, rfl, inside, perm⟩ := first listed object
    obtain ⟨changedAgain, movedAgain, same, insideAgain, permAgain⟩ := second moved rfl
    -- what changes inside after the first move can as well change before it
    obtain ⟨between, fromChanged, toChanged⟩ := List.perm_comp_forall₂ perm insideAgain
    exact ⟨between, movedAgain, same, alike_trans inside fromChanged, toChanged.trans permAgain⟩

/-- Members that are reordered inside make up an object that is. -/
theorem of_alike {members changed : List (String × Value)}
    (alike : List.Forall₂ Alike members changed) :
    (Value.object members).Reordered (.object changed) := by
  suffices behind : ∀ before, (Value.object (before ++ members)).Reordered
      (.object (before ++ changed)) from behind []
  induction alike with
  | nil => exact fun before => .same _
  | @cons first second rest others alike _ ih =>
    intro before
    obtain ⟨key, value⟩ := first
    obtain ⟨name, other⟩ := second
    obtain ⟨rfl, inside⟩ := alike
    have later := ih (before ++ [(key, other)])
    rw [List.append_assoc, List.append_assoc] at later
    exact .trans (.member before key rest inside) later

/-- Members that have nothing inside are only moved. -/
theorem of_scalars {members : List (String × Value)} {other : Value}
    (reordered : (Value.object members).Reordered other)
    (scalars : ∀ member ∈ members, member.2.isScalar = true) :
    ∃ moved, other = .object moved ∧ members.Perm moved := by
  obtain ⟨changed, moved, same, inside, perm⟩ := reordered.of_object
  have unchanged : changed = members := by
    clear reordered same perm
    induction inside with
    | nil => rfl
    | cons alike _ ih =>
      obtain ⟨first, rest⟩ := List.forall_mem_cons.mp scalars
      have value := alike.2.eq_of_isScalar first
      rw [ih rest, Prod.ext alike.1.symm value]
  exact ⟨moved, same, unchanged ▸ perm⟩

end Reordered

end Value

/-! Reading. -/

/-- The only member with a name, among members that are printed in any order. -/
theorem sole?_printed {spacing : Spacing} {level : Nat} {members : List (String × Value)}
    {name : String} {value : Value} (once : (members.map Prod.fst).Nodup)
    (member : (name, value) ∈ members) :
    sole? name (printedMembers spacing level members) =
      some (value.document spacing (level + 1)) := by
  have absent : ∀ rest : List (String × Value), name ∉ rest.map Prod.fst →
      ∀ other ∈ printedMembers spacing level rest, other.name? ≠ some name := by
    intro rest fresh
    induction rest with
    | nil => exact fun _ member => nomatch member
    | cons first rest ih =>
      obtain ⟨other, later⟩ := not_or.mp fun either => fresh (List.mem_cons.mpr either)
      rw [printedMembers]
      refine List.forall_mem_cons.mpr ⟨?_, ih later⟩
      simpa [Member.name?] using Ne.symm other
  induction members with
  | nil => cases member
  | cons first rest ih =>
    obtain ⟨fresh, once⟩ := List.nodup_cons.mp once
    rcases List.mem_cons.mp member with rfl | later
    · have named : (printedMembers spacing level ((name, value) :: rest)).filter
          (fun member => member.name? = some name) =
          [⟨spacing.line (level + 1), escapedPieces name, Gap.none, ⟨spacing.afterColon,
            value.document spacing (level + 1), spacing.behind level rest.isEmpty⟩⟩] := by
        rw [printedMembers, List.filter_cons_of_pos (by simp [Member.name?]),
          List.filter_eq_nil_iff.mpr fun other inside => by simpa using absent rest fresh other inside]
      rw [sole?, named]
    · have other : first.1 ≠ name := by
        rintro rfl
        exact fresh (List.mem_map.mpr ⟨_, later, rfl⟩)
      rw [printedMembers, sole?_cons_other (by simpa [Member.name?] using other)]
      exact ih once later

theorem allNamed_printed (spacing : Spacing) (level : Nat) (members : List (String × Value)) :
    allNamed (printedMembers spacing level members) = true := by
  induction members with
  | nil => rfl
  | cons member rest ih =>
    rw [allNamed, List.all_eq_true] at ih ⊢
    rw [printedMembers]
    exact List.forall_mem_cons.mpr ⟨by simp [Member.name?], ih⟩

namespace Reader

/-- Members that are read in any order, where the state tells just which names were there. -/
theorem Folds.inAnyOrder {σ : Type} {step : σ → String → Reader σ} {spacing : Spacing} {level : Nat}
    {seen : List String → σ} {members moved : List (String × Value)}
    (reads : ∀ name value names, (name, value) ∈ members → name ∉ names →
      Steps step (seen names) name (value.document spacing (level + 1)) (seen (name :: names)))
    (once : (members.map Prod.fst).Nodup) (perm : members.Perm moved) :
    Folds step (seen []) (printedMembers spacing level moved)
      (seen (moved.map Prod.fst).reverse) := by
  have rest : ∀ (rest : List (String × Value)) (names : List String),
      (∀ member ∈ rest, member ∈ members) → (rest.map Prod.fst).Nodup →
      (∀ name ∈ rest.map Prod.fst, name ∉ names) →
      Folds step (seen names) (printedMembers spacing level rest)
        (seen ((rest.map Prod.fst).reverse ++ names)) := by
    intro rest
    induction rest with
    | nil => exact fun _ _ _ _ => .none
    | cons member rest ih =>
      intro names known once fresh
      obtain ⟨name, value⟩ := member
      obtain ⟨here, once⟩ := List.nodup_cons.mp once
      obtain ⟨first, known⟩ := List.forall_mem_cons.mp known
      obtain ⟨freshHere, fresh⟩ := List.forall_mem_cons.mp fresh
      have further := ih (name :: names) known once fun other member repeated =>
        (List.mem_cons.mp repeated).elim (fun same => here (same ▸ member)) (fresh other member)
      rw [List.map_cons, List.reverse_cons, List.append_assoc, List.singleton_append]
      exact .printed (reads name value names first freshHere) further
  have all := rest moved [] (fun _ member => perm.mem_iff.mpr member)
    ((perm.map Prod.fst).nodup_iff.mp once) fun _ _ => List.not_mem_nil
  rwa [List.append_nil] at all

end Reader

end GitHistory.Json
