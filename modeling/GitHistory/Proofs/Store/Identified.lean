import GitHistory.Store.Revision

/-! A revision that is nothing but a full id stands for the commit of that id. -/
namespace GitHistory

namespace ObjectId.IsFull

variable {id : ObjectId} {c : Char}

/-- A character with a meaning of its own in a revision is in no id. -/
theorem ne_of_mem (full : IsFull id) {other : Char} (member : c ∈ id.toList)
    (special : other ∉ alphabet) : c ≠ other := by
  rintro rfl
  exact special (full.digits c member)

theorem isHexDigit (full : IsFull id) (member : c ∈ id.toList) :
    Revision.isHexDigit c = true := by
  have each : alphabet.all Revision.isHexDigit = true := by decide
  exact List.all_eq_true.mp each c (full.digits c member)

theorem map_toLower (full : IsFull id) : id.toList.map Char.toLower = id.toList := by
  have each : alphabet.map Char.toLower = alphabet.map (·) := by decide
  calc id.toList.map Char.toLower = id.toList.map (·) :=
        List.map_congr_left fun c member => List.map_inj_left.mp each c (full.digits c member)
    _ = id.toList := List.map_id' _

theorem looksLikeOption_eq (full : IsFull id) : looksLikeOption id = false := by
  rw [looksLikeOption]
  cases text : id.toList with
  | nil => rfl
  | cons c rest =>
    have noDash : c ≠ '-' := full.ne_of_mem (text ▸ List.mem_cons_self) (by decide)
    simpa using noDash

theorem no_nul (full : IsFull id) : id.toList.contains '\x00' = false := by
  rw [← Bool.not_eq_true, List.contains_iff_mem]
  exact fun member => full.ne_of_mem member (by decide) rfl

end ObjectId.IsFull

namespace Store

variable {store : Store} {id : ObjectId}

/-- A text without the characters that steps start with is a name as a whole. -/
theorem readOn_name {turns : Nat} {name text : List Char} (enough : text.length ≤ turns)
    (plain : ∀ c ∈ text, c ≠ '^' ∧ c ≠ '~' ∧ c ≠ ':' ∧ c ≠ '@') :
    store.readOn turns { name := name } text = store.base { name := name ++ text } := by
  induction text generalizing turns name with
  | nil =>
    rw [List.append_nil]
    cases turns <;> rfl
  | cons c rest ih =>
    obtain ⟨turns, rfl⟩ := Nat.exists_eq_add_one_of_ne_zero (Nat.ne_zero_of_lt enough)
    obtain ⟨caret, tilde, colon, sign⟩ := plain c List.mem_cons_self
    have further := @ih turns (name ++ [c]) (Nat.le_of_succ_le_succ enough)
      fun other member => plain other (List.mem_cons_of_mem c member)
    rw [List.append_assoc, List.singleton_append] at further
    rw [← further, readOn.eq_def]
    dsimp only
    split
    · exact absurd rfl caret
    · exact absurd rfl caret
    · exact absurd rfl tilde
    · exact absurd rfl colon
    · exact absurd rfl sign
    · rfl

theorem identified_eq (full : id.IsFull) : store.identified id.toList = store.load id := by
  have digits : id.toList.all Revision.isHexDigit = true :=
    List.all_eq_true.mpr fun c member => full.isHexDigit member
  rw [identified, if_pos ⟨full.length, digits⟩, full.map_toLower, String.ofList_toList]

theorem base_eq (full : id.IsFull) {target : Target} (loaded : store.load id = .ok target) :
    store.base { name := id.toList } = .ok target := by
  have long := full.length
  rw [base]
  dsimp only
  split
  · rename_i empty
    rw [empty] at long
    cases long
  · rename_i single
    rw [single] at long
    cases long
  · rw [lookup, identified_eq full, loaded]
    rfl

/-- What a full id leads to is the object that it is the id of, whatever names there are. -/
theorem readOn_eq (full : id.IsFull) {target : Target} (loaded : store.load id = .ok target) :
    store.readOn (id.toList.length + 1) {} id.toList = .ok target := by
  have plain : ∀ c ∈ id.toList, c ≠ '^' ∧ c ≠ '~' ∧ c ≠ ':' ∧ c ≠ '@' := by
    intro c member
    exact ⟨full.ne_of_mem member (by decide), full.ne_of_mem member (by decide),
      full.ne_of_mem member (by decide), full.ne_of_mem member (by decide)⟩
  rw [readOn_name (Nat.le_succ _) plain]
  exact base_eq full loaded

end Store

end GitHistory
