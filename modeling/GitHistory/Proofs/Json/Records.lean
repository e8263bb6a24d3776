import GitHistory.Proofs.Json.Reading

/-! Records: every field once, by name from an object or by position from a list. -/
namespace GitHistory.Json

variable {α σ : Type}

/-- The value of the only member with a name. -/
def sole? (name : String) (members : List (Member Document)) : Option Document :=
  match members.filter fun member => member.name? = some name with
  | [member] => some member.content.value
  | _ => none

/-- Whether every key spells a name. -/
def allNamed (members : List (Member Document)) : Bool :=
  members.all fun member => member.name?.isSome

/-- A value for a field that has none yet. -/
def fill (given value : Option α) : Option (Option α) :=
  match given with
  | some _ => none
  | none => value.map some

/-- What the members with a name make of a field. -/
def slot (name : String) (meaning : Document → Option α) :
    Option α → List (Member Document) → Option (Option α)
  | given, [] => some given
  | given, member :: rest =>
    if member.name? = some name then
      (fill given (meaning member.content.value)).bind fun filled => slot name meaning filled rest
    else slot name meaning given rest

theorem slot_some (name : String) (meaning : Document → Option α) (value : α)
    (members : List (Member Document)) :
    slot name meaning (some value) members =
      if members.any fun member => member.name? = some name then none else some (some value) := by
  induction members with
  | nil => rfl
  | cons member rest ih =>
    by_cases same : member.name? = some name
    · simp [slot, same, fill]
    · simp [slot, same, ih]

theorem sole?_cons_same {name : String} {member : Member Document}
    (same : member.name? = some name) (rest : List (Member Document)) :
    sole? name (member :: rest) =
      if rest.any fun member => member.name? = some name then none
      else some member.content.value := by
  rw [sole?, List.filter_cons_of_pos (by simpa using same)]
  cases found : rest.filter fun member => member.name? = some name with
  | nil =>
    have absent := List.any_eq_false.mpr (List.filter_eq_nil_iff.mp found)
    simp [absent]
  | cons first more =>
    have kept : first ∈ rest.filter fun member => member.name? = some name := by simp [found]
    have present := List.any_eq_true.mpr ⟨first, List.mem_filter.mp kept⟩
    simp [present]

theorem sole?_cons_other {name : String} {member : Member Document}
    (other : member.name? ≠ some name) (rest : List (Member Document)) :
    sole? name (member :: rest) = sole? name rest := by
  rw [sole?, List.filter_cons_of_neg (by simpa using other), sole?]

/-- A field that has to be there is given by the only member with its name. -/
theorem slot_none_join (name : String) (meaning : Document → Option α)
    (members : List (Member Document)) :
    (slot name meaning none members).join = (sole? name members).bind meaning := by
  induction members with
  | nil => rfl
  | cons member rest ih =>
    by_cases same : member.name? = some name
    · rw [sole?_cons_same same, slot, if_pos same, fill]
      cases found : meaning member.content.value with
      | none => split <;> simp [found]
      | some value =>
        simp only [Option.map_some, Option.bind_some, slot_some]
        split <;> simp [found]
    · rw [sole?_cons_other same, slot, if_neg same, ih]

namespace Reader

theorem reads_string (expected : Expected) : Reads (string expected) Document.text? := by
  intro gap document rest delimited
  rw [string, accept?_bind, accept?_valueToken]
  cases document with
  | null => simp [Document.written, Document.text?]
  | boolean b => cases b <;> simp [Document.written, Document.text?, booleanText]
  | string pieces => simp [Document.written, Document.text?, accept?_stringBody, Function.comp_def]
  | list inner items => simp [Document.written, Document.text?]
  | object inner members => simp [Document.written, Document.text?]
  | number numeral =>
    obtain ⟨c, more, head, opening⟩ := numeral.written_head
    have quote : c ≠ '"' := by
      rcases opening with rfl | digit
      · decide
      · exact isDigit_ne digit (by decide)
    simp [Document.written, head, Document.text?]

theorem accept?_colon (gap : Gap) (rest : List Char) :
    accept? colon (gap.chars ++ ':' :: rest) = some ((), rest) := by
  simp [colon, isSpace]

theorem accept?_field {read : Reader α} {meaning : Document → Option α}
    (reads : Reads read meaning) (name : String) (given : Option α) (behind ahead : Gap)
    (document : Document) {rest : List Char} (delimited : Delimited rest) :
    accept? (field name given read)
        (behind.chars ++ ':' :: (ahead.chars ++ (document.written ++ rest))) =
      (fill given (meaning document)).map (·, rest) := by
  cases given with
  | some value => simp [field, fill]
  | none =>
    simp only [field, accept?_bind, accept?_colon, Option.bind_some, accept?_map,
      reads ahead document rest delimited, fill]
    cases meaning document <;> rfl

@[simp] theorem accept?_required (name : String) (given : Option α) (text : List Char) :
    accept? (required name given) text = given.map (·, text) := by
  cases given <;> rfl

/-! Positions. -/

theorem accept?_element {read : Reader α} {meaning : Document → Option α}
    (reads : Reads read meaning) (arity : Arity) (index : Nat) (gap : Gap)
    (items : List (Laid Document)) (rest : List Char) :
    accept? (element arity index read)
        (gap.chars ++ (writtenItems (index = 0) items ++ ']' :: rest)) =
      match items with
      | [] => none
      | item :: more => (meaning item.value).map
          (·, item.after.chars ++ (writtenItems false more ++ ']' :: rest)) := by
  cases items with
  | nil => simp [element, writtenItems, accept?_nextElement_end]
  | cons item more =>
    have delimited := delimited_gap item.after (delimited_items more rest)
    simp only [element, accept?_bind, accept?_nextElement_item, Option.bind_some, if_true,
      reads.here item.value delimited]

theorem accept?_closeList (gap : Gap) (items : List (Laid Document)) (rest : List Char) :
    accept? closeList (gap.chars ++ (writtenItems false items ++ ']' :: rest)) =
      if items.isEmpty then some ((), rest) else none := by
  cases items with
  | nil => simp [closeList, writtenItems, isSpace]
  | cons item more =>
    simp [closeList, writtenItems, leadingComma, isSpace]
    split <;> rfl

/-- A reader that, up to the end of the list, takes the items still to come for their meaning. -/
def Places (read : Reader α) (first : Bool) (meaning : List (Laid Document) → Option α) : Prop :=
  ∀ (gap : Gap) (items : List (Laid Document)) (rest : List Char),
    accept? (do let value ← read; closeList; pure value)
      (gap.chars ++ (writtenItems first items ++ ']' :: rest)) = (meaning items).map (·, rest)

theorem places_pure (value : α) :
    Places (pure value) false fun items => if items.isEmpty then some value else none := by
  intro gap items rest
  simp only [pure_bind, accept?_bind, accept?_closeList]
  split <;> rfl

theorem places_element {β : Type} {read : Reader α} {meaning : Document → Option α}
    (reads : Reads read meaning) {next : α → Reader β}
    {later : α → List (Laid Document) → Option β}
    (places : ∀ value, Places (next value) false (later value)) (arity : Arity) (index : Nat) :
    Places (element arity index read >>= next) (index = 0) fun items =>
      match items with
      | [] => none
      | item :: more => (meaning item.value).bind fun value => later value more := by
  intro gap items rest
  rw [bind_assoc, accept?_bind, accept?_element reads]
  cases items with
  | nil => rfl
  | cons item more =>
    dsimp only
    cases meaning item.value with
    | none => rfl
    | some value => exact places value item.after more rest

/-- A record means what its members complete to, or what its items give in order. -/
theorem reads_record {step : σ → String → Reader σ} {absorb : σ → String → Document → Option σ}
    (absorbs : Absorbs step absorb) (start : σ) {finish : σ → Reader α} {complete : σ → Option α}
    (finishes : ∀ state text, accept? (finish state) text = (complete state).map (·, text))
    {positional : Reader α} {ordered : List (Laid Document) → Option α}
    (places : Places positional true ordered) (name : String) :
    Reads (record name step start finish positional) fun document =>
      match document with
      | .object _ members => (absorbed? absorb start members).bind complete
      | .list _ items => ordered items
      | _ => none := by
  intro gap document rest delimited
  rw [record, accept?_bind, accept?_valueToken]
  cases document with
  | null => simp [Document.written]
  | boolean b => cases b <;> simp [Document.written, booleanText]
  | string pieces => simp [Document.written]
  | list inner items =>
    simpa [Document.written] using places inner items rest
  | object inner members =>
    simp only [Document.written, List.cons_append, List.append_assoc, List.nil_append,
      List.head?_cons, Option.map_some, Option.bind_some, accept?_bind, accept?_advance,
      List.drop_succ_cons, List.drop_zero, accept?_members absorbs, finishes]
    cases absorbed? absorb start members <;> rfl
  | number numeral =>
    obtain ⟨c, more, head, opening⟩ := numeral.written_head
    have brace : c ≠ '{' := by
      rcases opening with rfl | digit
      · decide
      · exact isDigit_ne digit (by decide)
    have bracket : c ≠ '[' := by
      rcases opening with rfl | digit
      · decide
      · exact isDigit_ne digit (by decide)
    simp [Document.written, head]

end Reader

end GitHistory.Json
